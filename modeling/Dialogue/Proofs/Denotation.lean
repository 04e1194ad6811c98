import Dialogue.Proofs.Lexemes
import Mathlib.Data.List.TakeWhile

/-!
# Lexemes and what they denote

What the reader of tokens finds in a line, said without the reader.  `Denotes` relates the text of a
token, its *lexeme*, to the token: a literal to its value, a condition to what stands between its
brackets, a header to its name, and so on.  `Placed` says where the lexeme may stand: a header is a
whole line, a divert goes on to the end of its line, a marker starts one and is followed by a space,
and a word ends where the next character cannot belong to it.

`piece_eq_token` says that the reader follows these two: whatever token it finds, the token has a
lexeme at that place.  What is no token is a blank or a comment (`piece_eq_gap`).
-/

namespace Dialogue

open Text

namespace Lexer

/-! ### The scanners of the reader -/

theorem head?_dropWhile {p : Char → Bool} {cs : List Char} :
    ∀ c ∈ (cs.dropWhile p).head?, p c = false := by
  intro c hc
  have hhead := List.head?_dropWhile_not p cs
  rw [hc] at hhead
  exact hhead

/-- A run is as long as it can be. -/
theorem run?_eq_some_iff {least : Nat} {p : Char → Bool} {cs text rest : List Char} :
    run? least p cs = some (text, rest) ↔ cs = text ++ rest ∧ least ≤ text.length ∧
      (∀ c ∈ text, p c = true) ∧ ∀ c ∈ rest.head?, p c = false := by
  constructor
  · intro h
    rw [run?] at h
    split at h
    · rename_i hle
      cases h
      exact ⟨List.takeWhile_append_dropWhile.symm, hle, fun c hc => List.mem_takeWhile_imp hc,
        head?_dropWhile⟩
    · cases h
  · rintro ⟨rfl, hle, htext, hrest⟩
    exact run?_append hle htext hrest

/-- The parts of a header line: equals signs, a blank, the name, blanks, equals signs, and spaces
and tabs. -/
inductive IsHeader (line name : List Char) : Prop
  | intro {opening blanks closing rest afterName afterBlanks afterClosing : List Char} {b : Char} :
      run? 2 (· == '=') line = some (opening, b :: rest) → isBlank b = true →
      run? 1 isWordChar rest = some (name, afterName) →
      run? 1 isBlank afterName = some (blanks, afterBlanks) →
      run? 2 (· == '=') afterBlanks = some (closing, afterClosing) →
      afterClosing.all isSpace = true → IsHeader line name

theorem headerName?_eq_some_iff {line name : List Char} :
    headerName? line = some name ↔ IsHeader line name := by
  constructor
  · intro h
    unfold headerName? at h
    split at h
    · rename_i opening b rest hopening
      split at h
      · rename_i hb
        split at h
        · rename_i name' afterName hname
          split at h
          · rename_i blanks afterBlanks hblanks
            split at h
            · rename_i closing afterClosing hclosing
              split at h
              · rename_i hspaces
                cases h
                exact .intro hopening hb hname hblanks hclosing hspaces
              · cases h
            · cases h
          · cases h
        · cases h
      · cases h
    · cases h
  · rintro ⟨hopening, hb, hname, hblanks, hclosing, hspaces⟩
    simp only [headerName?, hopening, hb, hname, hblanks, hclosing, hspaces, if_true]

theorem exists_of_divertTarget? {cs target : List Char} (h : divertTarget? cs = some target) :
    ∃ spaces, cs = '-' :: '>' :: ' ' :: (target ++ spaces) ∧ IsTarget (String.ofList target) ∧
      ∀ c ∈ spaces, isSpace c = true := by
  unfold divertTarget? at h
  split at h
  · rename_i c rest
    split at h
    · rename_i hc
      cases h
      obtain ⟨halpha, hspaces⟩ := Bool.and_eq_true_iff.mp hc
      have hsplit : rest.takeWhile isWordChar ++ rest.dropWhile isWordChar = rest :=
        List.takeWhile_append_dropWhile
      refine ⟨rest.dropWhile isWordChar, ?_, ⟨c, _, String.toList_ofList, halpha, ?_⟩,
        List.all_eq_true.mp hspaces⟩
      · rw [List.cons_append, hsplit]
      · exact fun d hd => isWordChar_eq_true_iff.mp (List.mem_takeWhile_imp hd)
    · cases h
  · cases h

theorem upTo?_eq_some {stop : Char} {cs text : List Char} (h : upTo? stop cs = some text) :
    stop ∉ text ∧ ∃ rest, cs = text ++ stop :: rest := by
  rw [upTo?] at h
  split at h
  · rename_i hcontains
    cases h
    constructor
    · intro hmem
      have hne := List.mem_takeWhile_imp hmem
      simp at hne
    · have hsplit : cs.takeWhile (· != stop) ++ cs.dropWhile (· != stop) = cs :=
        List.takeWhile_append_dropWhile
      cases hrest : cs.dropWhile (· != stop) with
      | nil =>
        have hall := List.dropWhile_eq_nil_iff.mp hrest stop (List.contains_iff_mem.mp hcontains)
        simp at hall
      | cons d rest =>
        have hd : (d != stop) = false := head?_dropWhile d (by rw [hrest]; rfl)
        rw [hrest, bne_eq_false_iff_eq.mp hd] at hsplit
        exact ⟨rest, hsplit.symm⟩
  · cases h

theorem exists_of_not_isBlankText {cs : List Char} (h : ¬ isBlankText cs = true) :
    ∃ c ∈ cs, isBlank c = false := by
  rw [Bool.not_eq_true, isBlankText, List.all_eq_false] at h
  obtain ⟨c, hc, hblank⟩ := h
  exact ⟨c, hc, Bool.not_eq_true _ ▸ hblank⟩

/-! ### Lexemes -/

/-- **The token that a lexeme denotes.** -/
inductive Denotes : List Char → Token.Kind → Prop
  /-- A literal denotes the text that it decodes to. -/
  | string {literal value : List Char} : Quoted.decode? literal = some value →
      Denotes literal (.string (String.ofList value))
  | header {opening blanks closing spaces : List Char} {b : Char} {name : String} :
      2 ≤ opening.length → (∀ c ∈ opening, c = '=') → isBlank b = true → IsSegmentName name →
      blanks ≠ [] → (∀ c ∈ blanks, isBlank c = true) →
      2 ≤ closing.length → (∀ c ∈ closing, c = '=') → (∀ c ∈ spaces, isSpace c = true) →
      Denotes (opening ++ b :: (name.toList ++ (blanks ++ (closing ++ spaces)))) (.header name)
  | divert {target : String} {spaces : List Char} : IsTarget target →
      (∀ c ∈ spaces, isSpace c = true) →
      Denotes ('-' :: '>' :: ' ' :: (target.toList ++ spaces)) (.divert target)
  | marker : Denotes ['*'] .marker
  /-- A condition is kept as it stands between its brackets. -/
  | condition {expr : String} : ']' ∉ expr.toList → (∃ c ∈ expr.toList, isBlank c = false) →
      Denotes ('[' :: (expr.toList ++ [']'])) (.condition expr)
  /-- Code loses the blanks at its ends. -/
  | script {code : List Char} : '\x7d' ∉ code → (∃ c ∈ code, isBlank c = false) →
      Denotes ('\x7b' :: (code ++ ['\x7d'])) (.script (String.ofList (trim code)))
  | actor {name : String} : IsIdentifier name → Denotes (name.toList ++ [':']) (.actor name)
  | keyword (word : Keyword) : Denotes word.text.toList (.keyword word)
  | symbol {name : String} : IsRoutineName name → Denotes name.toList (.symbol name)

/-- Where the lexeme of a token may stand: `atStart` says that it starts its line, and `rest` is
what follows it. -/
def Placed (atStart : Bool) (rest : List Char) : Token.Kind → Prop
  | .header _ => atStart = true ∧ rest = []
  | .divert _ => rest = []
  | .marker => atStart = true ∧ rest.head? = some ' '
  | .keyword _ => ∀ c ∈ rest.head?, ¬ IsNameChar c ∧ c ≠ ':'
  | .symbol _ => ∀ c ∈ rest.head?, ¬ IsNameChar c ∧ c ≠ ':'
  | _ => True

/-! ### What the reader finds -/

/-- The token `kind` is read from the characters behind `c` up to `more` of them. -/
def Finds (atStart : Bool) (c : Char) (cs : List Char) (kind : Token.Kind) (more : Nat) : Prop :=
  ∃ text rest, cs = text ++ rest ∧ text.length = more ∧ Denotes (c :: text) kind ∧
    Placed atStart rest kind

theorem finds_of_stringPiece {atStart : Bool} {cs : List Char} {kind : Token.Kind} {more : Nat}
    (h : stringPiece ('"' :: cs) = .ok (.token kind more)) : Finds atStart '"' cs kind more := by
  obtain ⟨text, rest, value, rfl, hliteral, heq⟩ := stringPiece_eq_ok_iff.mp h
  cases heq
  exact ⟨text, rest, rfl, rfl, .string (Quoted.decode?_eq_some_iff.mpr hliteral), trivial⟩

theorem denotes_of_headerName? {line name : List Char} (h : headerName? line = some name) :
    Denotes line (.header (String.ofList name)) := by
  obtain ⟨hopening, hb, hname, hblanks, hclosing, hspaces⟩ := headerName?_eq_some_iff.mp h
  obtain ⟨hline, hopen, hequals, -⟩ := run?_eq_some_iff.mp hopening
  obtain ⟨rfl, hlength, hword, -⟩ := run?_eq_some_iff.mp hname
  obtain ⟨rfl, hgap, hgap', -⟩ := run?_eq_some_iff.mp hblanks
  obtain ⟨rfl, hclose, hequals', -⟩ := run?_eq_some_iff.mp hclosing
  have hsegment : IsSegmentName (String.ofList name) := by
    rw [IsSegmentName, String.toList_ofList]
    exact ⟨List.ne_nil_of_length_pos hlength, fun c hc => isWordChar_eq_true_iff.mp (hword c hc)⟩
  have hdenotes := Denotes.header hopen (fun d hd => beq_iff_eq.mp (hequals d hd)) hb hsegment
    (List.ne_nil_of_length_pos hgap) hgap' hclose (fun d hd => beq_iff_eq.mp (hequals' d hd))
    (List.all_eq_true.mp hspaces)
  rwa [String.toList_ofList, ← hline] at hdenotes

theorem denotes_of_divertTarget? {text target : List Char} (h : divertTarget? text = some target) :
    Denotes text (.divert (String.ofList target)) := by
  obtain ⟨spaces, rfl, htarget, hspaces⟩ := exists_of_divertTarget? h
  have hdenotes := Denotes.divert htarget hspaces
  rwa [String.toList_ofList] at hdenotes

theorem finds_of_headerName? {atStart : Bool} {c : Char} {cs name : List Char}
    (hstart : atStart = true) (h : headerName? (c :: cs) = some name) :
    Finds atStart c cs (.header (String.ofList name)) cs.length :=
  ⟨cs, [], (List.append_nil cs).symm, rfl, denotes_of_headerName? h, hstart, rfl⟩

theorem finds_of_divertTarget? {atStart : Bool} {cs target : List Char}
    (h : divertTarget? ('-' :: cs) = some target) :
    Finds atStart '-' cs (.divert (String.ofList target)) cs.length :=
  ⟨cs, [], (List.append_nil cs).symm, rfl, denotes_of_divertTarget? h, rfl⟩

theorem finds_of_conditionPiece {atStart : Bool} {cs : List Char} {kind : Token.Kind} {more : Nat}
    (h : conditionPiece cs = .ok (.token kind more)) : Finds atStart '[' cs kind more := by
  unfold conditionPiece at h
  split at h
  · cases h
  · rename_i expr hexpr
    obtain ⟨hstop, rest, rfl⟩ := upTo?_eq_some hexpr
    split at h
    · cases h
    · rename_i hblank
      cases h
      have hdenotes : Denotes ('[' :: (expr ++ [']'])) (.condition (String.ofList expr)) := by
        have hexpr' := @Denotes.condition (String.ofList expr)
        rw [String.toList_ofList] at hexpr'
        exact hexpr' hstop (exists_of_not_isBlankText hblank)
      exact ⟨expr ++ [']'], rest, by simp, by simp, hdenotes, trivial⟩

theorem finds_of_scriptPiece {atStart : Bool} {cs : List Char} {kind : Token.Kind} {more : Nat}
    (h : scriptPiece cs = .ok (.token kind more)) : Finds atStart '\x7b' cs kind more := by
  unfold scriptPiece at h
  split at h
  · cases h
  · rename_i code hcode
    obtain ⟨hstop, rest, rfl⟩ := upTo?_eq_some hcode
    split at h
    · cases h
    · rename_i hblank
      cases h
      exact ⟨code ++ ['\x7d'], rest, by simp, by simp,
        .script hstop (exists_of_not_isBlankText hblank), trivial⟩

theorem finds_of_namePiece {atStart : Bool} {c : Char} (hc : c.isLower = true) {cs : List Char}
    {kind : Token.Kind} {more : Nat} (h : namePiece c cs = .token kind more) :
    Finds atStart c cs kind more := by
  let word := cs.takeWhile isNameChar
  let rest := cs.dropWhile isNameChar
  have hsplit : cs = word ++ rest := List.takeWhile_append_dropWhile.symm
  have hname : (String.ofList (c :: word)).toList = c :: word := String.toList_ofList
  have hident : IsIdentifier (String.ofList (c :: word)) :=
    ⟨c, word, hname, hc, fun d hd => isNameChar_eq_true_iff.mp (List.mem_takeWhile_imp hd)⟩
  unfold namePiece at h
  simp only at h
  split at h
  · rename_i hcolon
    obtain ⟨rest', hrest⟩ := List.head?_eq_some_iff.mp hcolon
    cases h
    have hactor := Denotes.actor hident
    rw [hname] at hactor
    refine ⟨word ++ [':'], rest', ?_, by simp [word], hactor, trivial⟩
    rw [List.append_assoc, List.singleton_append, ← hrest]
    exact hsplit
  · rename_i hcolon
    -- the word is as long as it can be, and no colon follows it
    have hends : ∀ d ∈ rest.head?, ¬ IsNameChar d ∧ d ≠ ':' := by
      intro d hd
      constructor
      · intro hd'
        have hfalse : isNameChar d = false := head?_dropWhile d hd
        rw [isNameChar_eq_true_iff.mpr hd'] at hfalse
        cases hfalse
      · rintro rfl
        exact hcolon hd
    split at h
    · rename_i keyword hword
      cases h
      have htext := Keyword.ofText?_eq_some_iff.mp hword
      have hkeyword := Denotes.keyword keyword
      rw [← htext, hname] at hkeyword
      exact ⟨word, rest, hsplit, rfl, hkeyword, hends⟩
    · rename_i hword
      cases h
      have hsymbol : IsRoutineName (String.ofList (c :: word)) := by
        refine ⟨hident, fun keyword heq => ?_⟩
        rw [Keyword.ofText?_eq_some_iff.mpr heq] at hword
        cases hword
      have hdenotes := Denotes.symbol hsymbol
      rw [hname] at hdenotes
      exact ⟨word, rest, hsplit, rfl, hdenotes, hends⟩

/-- **Every token has a lexeme where it is found.** -/
theorem piece_eq_token {atStart : Bool} {c : Char} {cs : List Char} {kind : Token.Kind} {more : Nat}
    (h : piece atStart c cs = .ok (.token kind more)) : Finds atStart c cs kind more := by
  rw [piece] at h
  by_cases hblank : isBlank c = true
  · rw [if_pos hblank] at h
    cases h
  rw [if_neg hblank] at h
  by_cases hslash : c = '/'
  · rw [if_pos hslash] at h
    split at h <;> cases h
  rw [if_neg hslash] at h
  by_cases hquote : c = '"'
  · rw [if_pos hquote] at h
    subst hquote
    exact finds_of_stringPiece h
  rw [if_neg hquote] at h
  by_cases hequals : c = '='
  · rw [if_pos hequals] at h
    cases atStart with
    | false => cases h
    | true =>
      split at h
      · rename_i name hname
        cases h
        exact finds_of_headerName? rfl hname
      · cases h
  rw [if_neg hequals] at h
  by_cases hdash : c = '-'
  · rw [if_pos hdash] at h
    subst hdash
    split at h
    · rename_i target htarget
      cases h
      exact finds_of_divertTarget? htarget
    · cases h
  rw [if_neg hdash] at h
  by_cases hbracket : c = '['
  · rw [if_pos hbracket] at h
    subst hbracket
    exact finds_of_conditionPiece h
  rw [if_neg hbracket] at h
  by_cases hbrace : c = '\x7b'
  · rw [if_pos hbrace] at h
    subst hbrace
    exact finds_of_scriptPiece h
  rw [if_neg hbrace] at h
  by_cases hstar : c = '*'
  · rw [if_pos hstar] at h
    subst hstar
    split at h
    · rename_i hplace
      cases h
      obtain ⟨hstart, hspace⟩ := Bool.and_eq_true_iff.mp hplace
      exact ⟨[], cs, rfl, rfl, .marker, hstart, beq_iff_eq.mp hspace⟩
    · cases h
  rw [if_neg hstar] at h
  by_cases hlower : c.isLower = true
  · rw [if_pos hlower] at h
    exact finds_of_namePiece hlower (Except.ok.inj h)
  · rw [if_neg hlower] at h
    cases h

/-- What is no token is a blank, or a comment that goes on to the end of its line. -/
theorem piece_eq_gap {atStart : Bool} {c : Char} {cs : List Char} {more : Nat}
    (h : piece atStart c cs = .ok (.gap more)) :
    (isBlank c = true ∧ more = 0) ∨ ∃ rest, c = '/' ∧ cs = '/' :: rest ∧ more = cs.length := by
  by_cases hblank : isBlank c = true
  · rw [piece, if_pos hblank] at h
    cases h
    exact .inl ⟨hblank, rfl⟩
  by_cases hslash : c = '/'
  · rw [piece, if_neg hblank, if_pos hslash] at h
    split at h
    · rename_i hhead
      obtain ⟨rest, rfl⟩ := List.head?_eq_some_iff.mp hhead
      cases h
      exact .inr ⟨rest, hslash, rfl, rfl⟩
    · cases h
  -- every other piece is a token
  exfalso
  rw [piece, if_neg hblank, if_neg hslash] at h
  grind [stringPiece, conditionPiece, scriptPiece, namePiece]

end Lexer

end Dialogue
