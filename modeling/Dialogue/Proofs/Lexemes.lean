import Dialogue.Proofs.Quoting
import Dialogue.Proofs.WellFormed

/-!
# Writing tokens

Tokens as text.  `Token.Kind.lexeme` is the text of a token; the tokens of a line are written with
one space between them, and every line ends with a line feed.

`tokenize_printLines` says that lines of tokens are read back as these tokens, each at the line and
the column at which it was written (`laidLines`), provided that the tokens are well formed and that
headers, diverts and markers stand where they may (`LineFits`).
-/

namespace Dialogue

/-! ### Lexemes -/

/-- The text of a token. -/
def Token.Kind.lexeme : Token.Kind → List Char
  | string value => Text.Quoted.encode value.toList
  | header name => '=' :: '=' :: '=' :: ' ' :: (name.toList ++ [' ', '=', '=', '='])
  | divert target => '-' :: '>' :: ' ' :: target.toList
  | marker => ['*']
  | condition expr => '[' :: (expr.toList ++ [']'])
  | script code => '\x7b' :: (code.toList ++ ['\x7d'])
  | actor name => name.toList ++ [':']
  | keyword word => word.text.toList
  | symbol value => value.toList

/-- The text of tokens that follow another one on its line: a space in front of each. -/
def printBehind : List Token.Kind → List Char
  | [] => []
  | kind :: kinds => ' ' :: (kind.lexeme ++ printBehind kinds)

/-- The text of a line. -/
def printLine : List Token.Kind → List Char
  | [] => []
  | kind :: kinds => kind.lexeme ++ printBehind kinds

/-- The text of lines, a line feed after each. -/
def printLines (lines : List (List Token.Kind)) : String :=
  String.ofList (lines.flatMap fun kinds => printLine kinds ++ ['\n'])

/-! ### Characters and runs -/

namespace Lexer

open Text

theorem isWordChar_eq_true_iff {c : Char} : isWordChar c = true ↔ IsWordChar c := by
  simp [isWordChar, IsWordChar]

theorem isNameChar_eq_true_iff {c : Char} : isNameChar c = true ↔ IsNameChar c := by
  simp [isNameChar, IsNameChar]

theorem toNat_of_isLower {c : Char} (h : c.isLower = true) : 97 ≤ c.toNat ∧ c.toNat ≤ 122 := by
  have hrange : (decide (c.val ≥ 'a'.val) && decide (c.val ≤ 'z'.val)) = true := h
  simpa [UInt32.le_iff_toNat_le, ← Char.toNat_val] using hrange

theorem isBlank_of_isLower {c : Char} (h : c.isLower = true) : isBlank c = false := by
  obtain ⟨hlow, hhigh⟩ := toNat_of_isLower h
  simp only [isBlank, inRanges, blankRanges, List.any_cons, List.any_nil, Bool.or_false,
    Bool.or_eq_false_iff, Bool.and_eq_false_iff, decide_eq_false_iff_not]
  omega

theorem ne_of_isLower {c d : Char} (h : c.isLower = true) (hd : d.isLower = false) : c ≠ d := by
  rintro rfl
  rw [h] at hd
  cases hd

/-- The token `kind` stands at the start of `text ++ rest`, and it ends with `text`. -/
def Reads (atStart : Bool) (kind : Token.Kind) (text rest : List Char) : Prop :=
  ∃ c cs, text = c :: cs ∧ piece atStart c (cs ++ rest) = .ok (.token kind cs.length)

theorem Reads.lineTokens {kind : Token.Kind} {text rest : List Char} {line column : Nat}
    (h : Reads (column == 0) kind text rest) :
    lineTokens line column (text ++ rest) =
      (lineTokens line (column + text.length) rest).map (⟨kind, ⟨line, column⟩⟩ :: ·) := by
  obtain ⟨c, cs, rfl, hpiece⟩ := h
  have hcolumn : column + 1 + cs.length = column + (c :: cs).length := by
    rw [List.length_cons]
    omega
  rw [List.cons_append, Lexer.lineTokens, hpiece]
  simp only [List.drop_left, hcolumn]
  cases Lexer.lineTokens line (column + (c :: cs).length) rest <;> rfl

theorem piece_of_isLower (atStart : Bool) {c : Char} (h : c.isLower = true) (cs : List Char) :
    piece atStart c cs = .ok (namePiece c cs) := by
  have hne : ∀ d : Char, d.isLower = false → c ≠ d := fun d hd => ne_of_isLower h hd
  rw [piece, if_neg (by rw [isBlank_of_isLower h]; decide), if_neg (hne _ (by decide)),
    if_neg (hne _ (by decide)), if_neg (hne _ (by decide)), if_neg (hne _ (by decide)),
    if_neg (hne _ (by decide)), if_neg (hne _ (by decide)), if_neg (hne _ (by decide)), if_pos h]

/-- A run ends where something of another class follows. -/
theorem takeWhile_append_of_stop {α : Type} {p : α → Bool} {text rest : List α}
    (htext : ∀ c ∈ text, p c = true) (hrest : ∀ c ∈ rest.head?, p c = false) :
    (text ++ rest).takeWhile p = text ∧ (text ++ rest).dropWhile p = rest := by
  rw [List.takeWhile_append_of_pos htext, List.dropWhile_append_of_pos htext]
  cases rest with
  | nil => simp
  | cons c cs =>
    have hc : p c = false := hrest c rfl
    simp [hc]

theorem upTo?_append {stop : Char} {text : List Char} (h : stop ∉ text) (rest : List Char) :
    upTo? stop (text ++ stop :: rest) = some text := by
  have hcontains : (text ++ stop :: rest).contains stop = true := by simp
  have htext : ∀ c ∈ text, (c != stop) = true := by
    intro c hc
    rw [bne_iff_ne]
    rintro rfl
    exact h hc
  have hstop : ∀ c ∈ (stop :: rest).head?, (c != stop) = false := by
    rintro _ ⟨⟩
    exact bne_self_eq_false stop
  rw [upTo?, if_pos hcontains, (takeWhile_append_of_stop htext hstop).1]

theorem isBlankText_eq_false {text : List Char} (h : ∃ c ∈ text, isBlank c = false) :
    isBlankText text = false := by
  obtain ⟨c, hc, hblank⟩ := h
  exact List.all_eq_false.mpr ⟨c, hc, by rw [hblank]; decide⟩

theorem run?_append {least : Nat} {p : Char → Bool} {text rest : List Char}
    (hleast : least ≤ text.length) (htext : ∀ c ∈ text, p c = true)
    (hrest : ∀ c ∈ rest.head?, p c = false) : run? least p (text ++ rest) = some (text, rest) := by
  obtain ⟨htake, hdrop⟩ := takeWhile_append_of_stop htext hrest
  rw [run?, htake, hdrop, if_pos hleast]

/-! ### Reading a token -/

theorem reads_string (atStart : Bool) (value : String) (rest : List Char) :
    Reads atStart (.string value) (Token.Kind.string value).lexeme rest := by
  refine ⟨'"', _, rfl, ?_⟩
  show stringPiece (Quoted.encode value.toList ++ rest) = _
  rw [stringPiece_encode, String.ofList_toList]
  rfl

theorem piece_of_headerName? {cs name : List Char} (h : headerName? ('=' :: cs) = some name) :
    piece true '=' cs = .ok (.token (.header (String.ofList name)) cs.length) := by
  rw [piece, if_neg (by decide), if_neg (by decide), if_neg (by decide), if_pos rfl, if_pos rfl, h]

theorem piece_of_divertTarget? (atStart : Bool) {cs target : List Char}
    (h : divertTarget? ('-' :: cs) = some target) :
    piece atStart '-' cs = .ok (.token (.divert (String.ofList target)) cs.length) := by
  rw [piece, if_neg (by decide), if_neg (by decide), if_neg (by decide), if_neg (by decide),
    if_pos rfl, h]

theorem reads_header {name : String} (h : IsSegmentName name) :
    Reads true (.header name) (Token.Kind.header name).lexeme [] := by
  refine ⟨'=', _, rfl, ?_⟩
  rw [List.append_nil]
  have hname : headerName? ('=' :: '=' :: '=' :: ' ' :: (name.toList ++ [' ', '=', '=', '='])) =
      some name.toList := by
    have hlength : 1 ≤ name.toList.length := List.length_pos_iff.mpr h.1
    have hword : ∀ c ∈ name.toList, isWordChar c = true :=
      fun c hc => isWordChar_eq_true_iff.mpr (h.2 c hc)
    have hopen : run? 2 (· == '=')
        ('=' :: '=' :: '=' :: ' ' :: (name.toList ++ [' ', '=', '=', '='])) =
        some (['=', '=', '='], ' ' :: (name.toList ++ [' ', '=', '=', '='])) := rfl
    have hrun : run? 1 isWordChar (name.toList ++ [' ', '=', '=', '=']) =
        some (name.toList, [' ', '=', '=', '=']) :=
      run?_append hlength hword (by rintro _ ⟨⟩; decide)
    have hgap : run? 1 isBlank [' ', '=', '=', '='] = some ([' '], ['=', '=', '=']) := by decide
    have hclose : run? 2 (· == '=') ['=', '=', '='] = some (['=', '=', '='], []) := by decide
    have hblank : isBlank ' ' = true := by decide
    simp only [headerName?, hopen, hrun, hgap, hclose, hblank, if_true, List.all_nil]
  rw [piece_of_headerName? hname, String.ofList_toList]

theorem reads_divert (atStart : Bool) {target : String} (h : IsTarget target) :
    Reads atStart (.divert target) (Token.Kind.divert target).lexeme [] := by
  obtain ⟨c, cs, htarget, hc, hcs⟩ := h
  have hword : ∀ d ∈ cs, isWordChar d = true := fun d hd => isWordChar_eq_true_iff.mpr (hcs d hd)
  obtain ⟨htake, hdrop⟩ := @takeWhile_append_of_stop Char isWordChar cs [] hword nofun
  rw [List.append_nil] at htake hdrop
  have hread : divertTarget? ('-' :: '>' :: ' ' :: target.toList) = some target.toList := by
    rw [htarget]
    simp only [divertTarget?, htake, hdrop, hc, List.all_nil, Bool.and_self, if_true]
  refine ⟨'-', _, rfl, ?_⟩
  rw [List.append_nil]
  rw [piece_of_divertTarget? atStart hread, String.ofList_toList]

theorem reads_marker (rest : List Char) : Reads true .marker ['*'] (' ' :: rest) :=
  ⟨'*', [], rfl, rfl⟩

theorem reads_condition (atStart : Bool) {expr : String} (h : IsCondition expr)
    (rest : List Char) :
    Reads atStart (.condition expr) (Token.Kind.condition expr).lexeme rest := by
  refine ⟨'[', _, rfl, ?_⟩
  show conditionPiece (expr.toList ++ [']'] ++ rest) = _
  rw [List.append_assoc, conditionPiece, List.singleton_append, upTo?_append h.1]
  simp only [isBlankText_eq_false h.2.2, Bool.false_eq_true, if_false, String.ofList_toList,
    List.length_append, List.length_singleton]

theorem dropWhile_eq_self {p : Char → Bool} {cs : List Char} (h : ∀ c ∈ cs.head?, p c = false) :
    cs.dropWhile p = cs :=
  (@takeWhile_append_of_stop Char p [] cs nofun h).2

/-- Code has nothing at its ends that would be trimmed. -/
theorem trim_eq_self {cs : List Char} (hhead : ∀ c ∈ cs.head?, isBlank c = false)
    (hlast : ∀ c ∈ cs.getLast?, isBlank c = false) : trim cs = cs := by
  have hreverse : ∀ c ∈ cs.reverse.head?, isBlank c = false := by
    rw [List.head?_reverse]
    exact hlast
  rw [trim, dropWhile_eq_self hhead, dropWhile_eq_self hreverse, List.reverse_reverse]

theorem reads_script (atStart : Bool) {code : String} (h : IsCode code)
    (rest : List Char) : Reads atStart (.script code) (Token.Kind.script code).lexeme rest := by
  obtain ⟨hbrace, -, hne, hhead, hlast⟩ := h
  have hblank : isBlankText code.toList = false := by
    obtain ⟨c, cs, hcode⟩ := List.exists_cons_of_ne_nil hne
    have hmem : c ∈ code.toList := by
      rw [hcode]
      exact List.mem_cons_self
    exact isBlankText_eq_false ⟨c, hmem, hhead c (by rw [hcode]; rfl)⟩
  refine ⟨'\x7b', _, rfl, ?_⟩
  show scriptPiece (code.toList ++ ['\x7d'] ++ rest) = _
  rw [List.append_assoc, scriptPiece, List.singleton_append, upTo?_append hbrace]
  simp only [hblank, Bool.false_eq_true, if_false, trim_eq_self hhead hlast, String.ofList_toList,
    List.length_append, List.length_singleton]

theorem reads_actor (atStart : Bool) {name : String} (h : IsIdentifier name) (rest : List Char) :
    Reads atStart (.actor name) (Token.Kind.actor name).lexeme rest := by
  obtain ⟨c, cs, hname, hc, hcs⟩ := h
  have hchars : ∀ d ∈ cs, isNameChar d = true := fun d hd => isNameChar_eq_true_iff.mpr (hcs d hd)
  have hcolon : ∀ d ∈ (':' :: rest).head?, isNameChar d = false := by
    rintro _ ⟨⟩
    decide
  obtain ⟨htake, hdrop⟩ := takeWhile_append_of_stop hchars hcolon
  refine ⟨c, cs ++ [':'], by rw [Token.Kind.lexeme, hname]; rfl, ?_⟩
  rw [List.append_assoc, List.singleton_append, piece_of_isLower atStart hc, namePiece, htake,
    hdrop, ← hname]
  simp only [List.head?_cons, if_true, String.ofList_toList, List.length_append,
    List.length_singleton]

/-- What may follow a word: a space, or nothing. -/
def EndsWord (rest : List Char) : Prop :=
  ∀ c ∈ rest.head?, c = ' '

/-- A word that is no speaker is a keyword or a symbol, by its spelling. -/
theorem namePiece_of_endsWord {name : String} {c : Char} {cs rest : List Char}
    (hname : name.toList = c :: cs) (hcs : ∀ d ∈ cs, IsNameChar d) (hrest : EndsWord rest) :
    namePiece c (cs ++ rest) =
      match Keyword.ofText? name with
      | some word => .token (.keyword word) cs.length
      | none => .token (.symbol name) cs.length := by
  have hchars : ∀ d ∈ cs, isNameChar d = true := fun d hd => isNameChar_eq_true_iff.mpr (hcs d hd)
  have hstop : ∀ d ∈ rest.head?, isNameChar d = false := by
    intro d hd
    rw [hrest d hd]
    decide
  have hcolon : rest.head? ≠ some ':' := by
    intro hhead
    exact absurd (hrest ':' hhead) (by decide)
  obtain ⟨htake, hdrop⟩ := takeWhile_append_of_stop hchars hstop
  rw [namePiece, htake, hdrop, ← hname]
  cases hword : Keyword.ofText? name with
  | none => simp only [if_neg hcolon, String.ofList_toList, hword]
  | some word => simp only [if_neg hcolon, String.ofList_toList, hword]

theorem reads_keyword (atStart : Bool) (word : Keyword) {rest : List Char} (hrest : EndsWord rest) :
    Reads atStart (.keyword word) (Token.Kind.keyword word).lexeme rest := by
  have hident : IsIdentifier word.text := by
    cases word <;> decide
  obtain ⟨c, cs, hname, hc, hcs⟩ := hident
  refine ⟨c, cs, hname, ?_⟩
  rw [piece_of_isLower atStart hc, namePiece_of_endsWord hname hcs hrest,
    Keyword.ofText?_eq_some_iff.mpr rfl]

theorem reads_symbol (atStart : Bool) {name : String} (h : IsRoutineName name) {rest : List Char}
    (hrest : EndsWord rest) :
    Reads atStart (.symbol name) (Token.Kind.symbol name).lexeme rest := by
  obtain ⟨⟨c, cs, hname, hc, hcs⟩, hword⟩ := h
  have hnone : Keyword.ofText? name = none := by
    cases hk : Keyword.ofText? name with
    | none => rfl
    | some word => exact absurd (Keyword.ofText?_eq_some_iff.mp hk) (hword word)
  refine ⟨c, cs, hname, ?_⟩
  rw [piece_of_isLower atStart hc, namePiece_of_endsWord hname hcs hrest, hnone]

end Lexer

/-! ### Reading lines -/

/-- Where a token may stand on a line: `atStart` says that it comes first, and `behind` are the
tokens behind it.  A header is alone, a divert comes last, and a marker comes first of several. -/
def Token.Kind.Stands (atStart : Bool) (behind : List Token.Kind) : Token.Kind → Prop
  | header _ => atStart = true ∧ behind = []
  | divert _ => behind = []
  | marker => atStart = true ∧ behind ≠ []
  | _ => True

/-- Tokens that can be written on one line. -/
def LineFits (atStart : Bool) : List Token.Kind → Prop
  | [] => True
  | kind :: kinds => kind.WellFormed ∧ kind.Stands atStart kinds ∧ LineFits false kinds

/-- The tokens of a line from `column` on. -/
def laidLine (line column : Nat) : List Token.Kind → List Token
  | [] => []
  | kind :: kinds =>
    ⟨kind, ⟨line, column⟩⟩ :: laidLine line (column + kind.lexeme.length + 1) kinds

/-- The tokens of lines, the first of which has number `line`. -/
def laidLines (line : Nat) : List (List Token.Kind) → List Token
  | [] => []
  | kinds :: rest => laidLine line 0 kinds ++ laidLines (line + 1) rest

namespace Lexer

theorem endsWord_printBehind (kinds : List Token.Kind) : EndsWord (printBehind kinds) := by
  cases kinds with
  | nil => nofun
  | cons kind kinds =>
    rintro _ ⟨⟩
    rfl

/-- **A token is read where it was written.** -/
theorem reads_lexeme {atStart : Bool} {kind : Token.Kind} {kinds : List Token.Kind}
    (h : kind.WellFormed) (hstands : kind.Stands atStart kinds) :
    Reads atStart kind kind.lexeme (printBehind kinds) := by
  have hends := endsWord_printBehind kinds
  cases kind with
  | string value => exact reads_string atStart value _
  | header name =>
    obtain ⟨rfl, rfl⟩ := hstands
    exact reads_header h
  | divert target =>
    have hnil : kinds = [] := hstands
    rw [hnil]
    exact reads_divert atStart h
  | marker =>
    obtain ⟨rfl, hne⟩ := hstands
    obtain ⟨kind, kinds, rfl⟩ := List.exists_cons_of_ne_nil hne
    exact reads_marker _
  | condition expr => exact reads_condition atStart h _
  | script code => exact reads_script atStart h _
  | actor name => exact reads_actor atStart h _
  | keyword word => exact reads_keyword atStart word hends
  | symbol value => exact reads_symbol atStart h hends

theorem lineTokens_printBehind {kinds : List Token.Kind} (h : LineFits false kinds)
    (line column : Nat) :
    lineTokens line column (printBehind kinds) = .ok (laidLine line (column + 1) kinds) := by
  induction kinds generalizing column with
  | nil =>
    rw [printBehind, lineTokens]
    rfl
  | cons kind kinds ih =>
    obtain ⟨hkind, hstands, hkinds⟩ := h
    have hgap : piece (column == 0) ' ' (kind.lexeme ++ printBehind kinds) = .ok (.gap 0) := rfl
    have hreads : Reads (column + 1 == 0) kind kind.lexeme (printBehind kinds) :=
      reads_lexeme hkind hstands
    rw [printBehind, lineTokens, hgap]
    simp only [List.drop_zero, Nat.add_zero]
    rw [hreads.lineTokens, ih hkinds]
    rfl

/-- **A line is read back**, every token at its column. -/
theorem lineTokens_printLine {kinds : List Token.Kind} (h : LineFits true kinds) (line : Nat) :
    lineTokens line 0 (printLine kinds) = .ok (laidLine line 0 kinds) := by
  cases kinds with
  | nil =>
    rw [printLine, lineTokens]
    rfl
  | cons kind kinds =>
    obtain ⟨hkind, hstands, hkinds⟩ := h
    have hreads : Reads (0 == 0) kind kind.lexeme (printBehind kinds) :=
      reads_lexeme hkind hstands
    rw [printLine, hreads.lineTokens, lineTokens_printBehind hkinds]
    rfl

theorem linesTokens_printLine {lines : List (List Token.Kind)}
    (h : ∀ kinds ∈ lines, LineFits true kinds) (line : Nat) :
    linesTokens line (lines.map printLine) = .ok (laidLines line lines) := by
  induction lines generalizing line with
  | nil => rfl
  | cons kinds lines ih =>
    have hfirst := lineTokens_printLine (h kinds List.mem_cons_self) line
    have hrest := ih (fun k hk => h k (List.mem_cons_of_mem kinds hk)) (line + 1)
    rw [List.map_cons, linesTokens, hfirst]
    simp only [hrest]
    rfl

end Lexer

/-! ### Reading a text -/

/-- A text that can stand on a line by itself: it has no line feed, and it does not end with a
carriage return, which would be taken for a part of the line end. -/
def IsLineText (l : List Char) : Prop :=
  '\n' ∉ l ∧ ∀ c ∈ l.getLast?, c ≠ '\r'

instance : DecidablePred IsLineText := fun l =>
  decidable_of_iff ('\n' ∉ l ∧ l.getLast? ≠ some '\r')
    (and_congr_right fun _ => ⟨fun h _ hc hr => h (hr ▸ hc), fun h hr => h _ hr rfl⟩)

theorem IsLineText.nil : IsLineText [] :=
  ⟨nofun, nofun⟩

theorem IsLineText.append {a b : List Char} (ha : IsLineText a) (hb : IsLineText b) :
    IsLineText (a ++ b) := by
  refine ⟨?_, ?_⟩
  · intro h
    rcases List.mem_append.mp h with h | h
    · exact ha.1 h
    · exact hb.1 h
  · intro c hc
    rw [List.getLast?_append] at hc
    cases hlast : b.getLast? with
    | none =>
      rw [hlast] at hc
      exact ha.2 c hc
    | some d =>
      rw [hlast] at hc
      exact hb.2 c (hlast.trans hc)

/-- A text of visible characters can stand on a line. -/
theorem isLineText_of_forall {l : List Char} (h : ∀ c ∈ l, c ≠ '\n' ∧ c ≠ '\r') : IsLineText l :=
  ⟨fun hmem => (h _ hmem).1 rfl, fun c hc => (h c (List.mem_of_getLast? hc)).2⟩

namespace Text

/-- A character that is no part of a line end starts the line that the rest goes on with. -/
theorem lines_cons {c : Char} {cs l : List Char} {ls : List (List Char)} (hfeed : c ≠ '\n')
    (hreturn : c = '\r' → cs.head? ≠ some '\n') (h : lines cs = l :: ls) :
    lines (c :: cs) = (c :: l) :: ls := by
  rw [lines]
  · rw [h]
  · exact hfeed
  · rintro cs' rfl rfl
    exact hreturn rfl rfl

theorem lines_line {l : List Char} (h : IsLineText l) (rest : List Char) :
    lines (l ++ '\n' :: rest) = l :: lines rest := by
  induction l with
  | nil => rfl
  | cons c l ih =>
    obtain ⟨hmem, hlast⟩ := h
    have hfeed : c ≠ '\n' := by
      rintro rfl
      exact hmem List.mem_cons_self
    have htail : IsLineText l := by
      refine ⟨fun hl => hmem (List.mem_cons_of_mem c hl), ?_⟩
      intro d hd
      apply hlast
      rw [List.getLast?_cons, hd]
      rfl
    have hreturn : c = '\r' → (l ++ '\n' :: rest).head? ≠ some '\n' := by
      rintro rfl
      cases l with
      | nil => exact absurd rfl (hlast '\r' rfl)
      | cons d l =>
        rintro ⟨⟩
        exact hmem (by simp)
    rw [List.cons_append]
    exact lines_cons hfeed hreturn (ih htail)

/-- The lines of a text are those that it was made of. -/
theorem lines_flatMap {ls : List (List Char)} (h : ∀ l ∈ ls, IsLineText l) :
    lines (ls.flatMap fun l => l ++ ['\n']) = ls := by
  induction ls with
  | nil => rfl
  | cons l ls ih =>
    rw [List.flatMap_cons, List.append_assoc, List.singleton_append,
      lines_line (h l List.mem_cons_self), ih fun l' hl' => h l' (List.mem_cons_of_mem l hl')]

end Text

theorem IsTarget.isWordChar {target : String} (h : IsTarget target) :
    ∀ c ∈ target.toList, IsWordChar c := by
  obtain ⟨c, cs, htarget, hc, hcs⟩ := h
  rw [htarget]
  intro d hd
  rcases List.mem_cons.mp hd with rfl | hd
  · exact .inl (by rw [Char.isAlphanum, hc]; rfl)
  · exact hcs d hd

theorem IsIdentifier.isWordChar {name : String} (h : IsIdentifier name) :
    ∀ c ∈ name.toList, IsWordChar c := by
  obtain ⟨c, cs, hname, hc, hcs⟩ := h
  rw [hname]
  intro d hd
  rcases List.mem_cons.mp hd with rfl | hd
  · have halpha : (d.isUpper || d.isLower) = true := by rw [hc, Bool.or_true]
    exact .inl (Bool.or_eq_true_iff.mpr (.inl halpha))
  · rcases hcs d hd with halpha | rfl
    · exact .inl (by rw [Char.isAlphanum, halpha]; rfl)
    · exact .inr rfl

theorem isLineText_of_isWordChar {l : List Char} (h : ∀ c ∈ l, IsWordChar c) : IsLineText l := by
  apply isLineText_of_forall
  intro c hc
  constructor
  · rintro rfl
    exact absurd (h _ hc) (by decide)
  · rintro rfl
    exact absurd (h _ hc) (by decide)

/-- A text between two visible characters can stand on a line if it has no line feed. -/
theorem isLineText_between {a b : Char} (ha : a ≠ '\n') (hb : b ≠ '\n') (hb' : b ≠ '\r')
    {text : List Char} (htext : '\n' ∉ text) : IsLineText (a :: (text ++ [b])) := by
  refine ⟨?_, ?_⟩
  · simp only [List.mem_cons, List.mem_append, List.not_mem_nil, or_false, not_or]
    exact ⟨ha.symm, htext, hb.symm⟩
  · intro c hc
    rw [← List.cons_append, List.getLast?_concat] at hc
    cases hc
    exact hb'

theorem isLineText_lexeme {kind : Token.Kind} (h : kind.WellFormed) : IsLineText kind.lexeme := by
  cases kind with
  | string value =>
    apply isLineText_of_forall
    intro c hc
    have hle := Text.Quoted.space_le_of_mem_encode hc
    constructor
    · rintro rfl
      exact absurd hle (by decide)
    · rintro rfl
      exact absurd hle (by decide)
  | header name =>
    have hopen : IsLineText ['=', '=', '=', ' '] := by decide
    have hclose : IsLineText [' ', '=', '=', '='] := by decide
    exact hopen.append ((isLineText_of_isWordChar h.2).append hclose)
  | divert target =>
    have harrow : IsLineText ['-', '>', ' '] := by decide
    exact harrow.append (isLineText_of_isWordChar (IsTarget.isWordChar h))
  | marker => decide
  | condition expr => exact isLineText_between (by decide) (by decide) (by decide) h.2.1
  | script code => exact isLineText_between (by decide) (by decide) (by decide) h.2.1
  | actor name =>
    have hcolon : IsLineText [':'] := by decide
    exact (isLineText_of_isWordChar (IsIdentifier.isWordChar h)).append hcolon
  | keyword word => cases word <;> decide
  | symbol value => exact isLineText_of_isWordChar h.1.isWordChar

theorem isLineText_printBehind {atStart : Bool} {kinds : List Token.Kind}
    (h : LineFits atStart kinds) : IsLineText (printBehind kinds) := by
  induction kinds generalizing atStart with
  | nil => exact .nil
  | cons kind kinds ih =>
    obtain ⟨hkind, -, hkinds⟩ := h
    have hspace : IsLineText [' '] := by decide
    exact hspace.append ((isLineText_lexeme hkind).append (ih hkinds))

theorem isLineText_printLine {kinds : List Token.Kind} (h : LineFits true kinds) :
    IsLineText (printLine kinds) := by
  cases kinds with
  | nil => exact .nil
  | cons kind kinds => exact (isLineText_lexeme h.1).append (isLineText_printBehind h.2.2)

/-- No token starts with a byte order mark. -/
theorem head?_lexeme_ne {kind : Token.Kind} (h : kind.WellFormed) :
    ∃ c cs, kind.lexeme = c :: cs ∧ (c == Text.byteOrderMark) = false := by
  have hname : ∀ {name : String}, IsIdentifier name → ∀ rest, ∃ c cs,
      name.toList ++ rest = c :: cs ∧ (c == Text.byteOrderMark) = false := by
    rintro name ⟨c, cs, hname, hc, -⟩ rest
    refine ⟨c, cs ++ rest, by rw [hname]; rfl, ?_⟩
    exact beq_eq_false_iff_ne.mpr (Lexer.ne_of_isLower hc (by decide))
  cases kind with
  | string value => exact ⟨_, _, rfl, by decide⟩
  | header name => exact ⟨_, _, rfl, by decide⟩
  | divert target => exact ⟨_, _, rfl, by decide⟩
  | marker => exact ⟨_, _, rfl, by decide⟩
  | condition expr => exact ⟨_, _, rfl, by decide⟩
  | script code => exact ⟨_, _, rfl, by decide⟩
  | actor name => exact hname h _
  | keyword word => cases word <;> exact ⟨_, _, rfl, by decide⟩
  | symbol value =>
    have hvalue := hname h.1 []
    rw [List.append_nil] at hvalue
    exact hvalue

theorem dropWhile_printLine {kinds : List Token.Kind} (h : LineFits true kinds) :
    (printLine kinds).dropWhile (· == Text.byteOrderMark) = printLine kinds := by
  cases kinds with
  | nil => rfl
  | cons kind kinds =>
    obtain ⟨c, cs, hlexeme, hc⟩ := head?_lexeme_ne h.1
    rw [printLine, hlexeme, List.cons_append, List.dropWhile_cons, hc]
    rfl

theorem scriptLines_printLines {lines : List (List Token.Kind)}
    (h : ∀ kinds ∈ lines, LineFits true kinds) :
    Text.scriptLines (printLines lines) = lines.map printLine := by
  have hlines : Text.lines (printLines lines).toList = lines.map printLine := by
    have htexts : ∀ l ∈ lines.map printLine, IsLineText l := by
      intro l hl
      obtain ⟨kinds, hkinds, rfl⟩ := List.mem_map.mp hl
      exact isLineText_printLine (h kinds hkinds)
    have hsplit := Text.lines_flatMap htexts
    rw [List.flatMap_map] at hsplit
    rw [printLines, String.toList_ofList]
    exact hsplit
  rw [Text.scriptLines, hlines]
  cases lines with
  | nil => rfl
  | cons kinds lines =>
    simp only [List.map_cons, dropWhile_printLine (h kinds List.mem_cons_self)]

/-- **Printed lines are read back**, every token at its line and column. -/
theorem tokenize_printLines {lines : List (List Token.Kind)}
    (h : ∀ kinds ∈ lines, LineFits true kinds) :
    tokenize (printLines lines) = .ok (laidLines 0 lines) := by
  rw [tokenize, scriptLines_printLines h]
  exact Lexer.linesTokens_printLine h 0

end Dialogue
