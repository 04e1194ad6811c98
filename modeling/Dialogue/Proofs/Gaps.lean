import Dialogue.Proofs.Accepted

/-!
# Blanks and comments in a line

Which tokens a line has, without their positions (`LineKinds`), and what may be added to a line
without changing them: blanks in front of it, unless it starts with a character that has to stand at
the very start (`LineKinds.indent`), and spaces and tabs behind it (`LineKinds.pad`).

For the latter, every piece is either found at the same length whatever spaces and tabs follow, or it
goes on to the end of its line and takes them in (`piece_pad`).  A header, a divert and a comment are
of the second sort; a header and a divert end with a check that nothing but spaces and tabs is left.
-/

namespace Dialogue.Lexer

open Text

/-! ### The pieces of a line -/

/-- The number of characters of a piece beyond its first. -/
def Piece.more : Piece → Nat
  | gap more => more
  | token _ more => more

/-- The token that a piece is, if it is one. -/
def Piece.kind? : Piece → Option Token.Kind
  | gap _ => none
  | token kind _ => some kind

/-- The token that a piece is, at its position. -/
def Piece.tokens (p : Position) (found : Piece) : List Token :=
  found.kind?.toList.map (⟨·, p⟩)

/-- The tokens of a line are that of its first piece, if it is one, and those behind it. -/
theorem lineTokens_cons {line column : Nat} {c : Char} {cs : List Char} {found : Piece}
    (h : piece (column == 0) c cs = .ok found) :
    lineTokens line column (c :: cs) =
      (lineTokens line (column + 1 + found.more) (cs.drop found.more)).map
        (found.tokens ⟨line, column⟩ ++ ·) := by
  rw [lineTokens, h]
  cases found with
  | gap more =>
    dsimp only [Piece.more]
    cases lineTokens line (column + 1 + more) (cs.drop more) <;> rfl
  | token kind more =>
    dsimp only [Piece.more]
    cases lineTokens line (column + 1 + more) (cs.drop more) <;> rfl

theorem exists_piece_of_lineTokens {line column : Nat} {c : Char} {cs : List Char}
    {ts : List Token} (h : lineTokens line column (c :: cs) = .ok ts) :
    ∃ found tokens, piece (column == 0) c cs = .ok found ∧
      lineTokens line (column + 1 + found.more) (cs.drop found.more) = .ok tokens ∧
      ts = found.tokens ⟨line, column⟩ ++ tokens := by
  cases hpiece : piece (column == 0) c cs with
  | error fault =>
    rw [lineTokens, hpiece] at h
    cases h
  | ok found =>
    rw [lineTokens_cons hpiece] at h
    cases htokens : lineTokens line (column + 1 + found.more) (cs.drop found.more) with
    | error e =>
      rw [htokens] at h
      cases h
    | ok tokens =>
      rw [htokens] at h
      cases h
      exact ⟨found, tokens, rfl, htokens, rfl⟩

/-! ### The kinds of a line -/

/-- The kinds of the tokens in the rest of a line. -/
inductive LineKinds : Bool → List Char → List Token.Kind → Prop
  | nil (atStart : Bool) : LineKinds atStart [] []
  | cons {atStart : Bool} {c : Char} {cs : List Char} {found : Piece} {kinds : List Token.Kind} :
      piece atStart c cs = .ok found → LineKinds false (cs.drop found.more) kinds →
      LineKinds atStart (c :: cs) (found.kind?.toList ++ kinds)

theorem lineKinds_of_lineTokens {line column : Nat} {cs : List Char} {ts : List Token}
    (h : lineTokens line column cs = .ok ts) :
    LineKinds (column == 0) cs (ts.map (·.kind)) := by
  fun_induction lineTokens line column cs generalizing ts with
  | case1 column =>
    cases h
    exact .nil _
  | case2 column c cs fault hpiece => cases h
  | case3 column c cs more hpiece ih =>
    have hrest := ih h
    rw [beq_false_of_ne (by omega)] at hrest
    exact .cons hpiece hrest
  | case4 column c cs kind more hpiece e hrest ih => cases h
  | case5 column c cs kind more hpiece tokens htokens ih =>
    cases h
    have hrest := ih htokens
    rw [beq_false_of_ne (by omega)] at hrest
    exact .cons hpiece hrest

theorem LineKinds.exists_lineTokens {atStart : Bool} {cs : List Char} {kinds : List Token.Kind}
    (h : LineKinds atStart cs kinds) {column : Nat} (hcolumn : (column == 0) = atStart)
    (line : Nat) : ∃ ts, lineTokens line column cs = .ok ts ∧ ts.map (·.kind) = kinds := by
  induction h generalizing column with
  | nil => exact ⟨[], by rw [lineTokens], rfl⟩
  | @cons atStart c cs found kinds hpiece hrest ih =>
    have hnext : (column + 1 + found.more == 0) = false := beq_false_of_ne (by omega)
    obtain ⟨ts, hts, hkinds⟩ := ih hnext
    rw [← hcolumn] at hpiece
    refine ⟨found.tokens ⟨line, column⟩ ++ ts, ?_, ?_⟩
    · rw [lineTokens_cons hpiece, hts]
      rfl
    · rw [List.map_append, hkinds]
      cases found <;> rfl

theorem LineKinds.head?_ne_byteOrderMark {atStart : Bool} {cs : List Char}
    {kinds : List Token.Kind} (h : LineKinds atStart cs kinds) : cs.head? ≠ some byteOrderMark := by
  cases h with
  | nil => rintro ⟨⟩
  | @cons _ c cs found _ hpiece _ =>
    intro heq
    obtain rfl : c = byteOrderMark := Option.some.inj heq
    have hunknown : piece atStart byteOrderMark cs = .error (.unknown byteOrderMark) := rfl
    rw [hunknown] at hpiece
    cases hpiece

/-! ### In front of a line -/

theorem piece_of_isBlank (atStart : Bool) {c : Char} (h : isBlank c = true) (cs : List Char) :
    piece atStart c cs = .ok (.gap 0) := by
  rw [piece, if_pos h]

theorem LineKinds.blanks {blanks cs : List Char} {kinds : List Token.Kind}
    (hblanks : ∀ b ∈ blanks, isBlank b = true) (h : LineKinds false cs kinds) :
    LineKinds false (blanks ++ cs) kinds := by
  induction blanks with
  | nil => exact h
  | cons b blanks ih =>
    obtain ⟨hb, hblanks⟩ := List.forall_mem_cons.mp hblanks
    exact .cons (piece_of_isBlank false hb _) (ih hblanks)

/-- Most pieces may stand anywhere in a line. -/
theorem piece_eq_of_ne {c : Char} (hheader : c ≠ '=') (hmarker : c ≠ '*') (cs : List Char) :
    piece true c cs = piece false c cs := by
  unfold piece
  simp only [if_neg hheader, if_neg hmarker]

/-- **Blanks in front of a line do not change its tokens**, unless a header or a marker may stand
there. -/
theorem LineKinds.indent {blanks cs : List Char} {kinds : List Token.Kind}
    (h : LineKinds true cs kinds) (hblanks : ∀ b ∈ blanks, isBlank b = true)
    (hhead : ∀ c ∈ cs.head?, c ≠ '=' ∧ c ≠ '*') : LineKinds true (blanks ++ cs) kinds := by
  cases blanks with
  | nil => exact h
  | cons b blanks =>
    obtain ⟨hb, hblanks⟩ := List.forall_mem_cons.mp hblanks
    have hrest : LineKinds false cs kinds := by
      cases h with
      | nil => exact .nil _
      | cons hpiece hrest =>
        obtain ⟨hheader, hmarker⟩ := hhead _ rfl
        rw [piece_eq_of_ne hheader hmarker] at hpiece
        exact .cons hpiece hrest
    exact .cons (piece_of_isBlank true hb _) (.blanks hblanks hrest)

/-! ### Behind a line -/

theorem eq_of_isSpace {c : Char} (h : isSpace c = true) : c = ' ' ∨ c = '\t' := by
  simpa [isSpace] using h

theorem isBlank_of_isSpace {c : Char} (h : isSpace c = true) : isBlank c = true := by
  rcases eq_of_isSpace h with rfl | rfl <;> decide

theorem isWordChar_of_isSpace {c : Char} (h : isSpace c = true) : isWordChar c = false := by
  rcases eq_of_isSpace h with rfl | rfl <;> decide

theorem isNameChar_of_isSpace {c : Char} (h : isSpace c = true) : isNameChar c = false := by
  rcases eq_of_isSpace h with rfl | rfl <;> decide

/-- A run that ends before the line does, or at a character of another class, stays as it is. -/
theorem takeWhile_pad {p : Char → Bool} {cs pad : List Char}
    (h : cs.dropWhile p = [] → ∀ c ∈ pad.head?, p c = false) :
    (cs ++ pad).takeWhile p = cs.takeWhile p ∧
      (cs ++ pad).dropWhile p = cs.dropWhile p ++ pad := by
  have hstop : ∀ c ∈ (cs.dropWhile p ++ pad).head?, p c = false := by
    cases hdrop : cs.dropWhile p with
    | nil => exact h hdrop
    | cons d ds =>
      rintro _ ⟨⟩
      exact head?_dropWhile d (by rw [hdrop]; rfl)
  have hsplit := @takeWhile_append_of_stop Char p (cs.takeWhile p) _
    (fun c => List.mem_takeWhile_imp) hstop
  rwa [← List.append_assoc, List.takeWhile_append_dropWhile] at hsplit

theorem run?_pad {least : Nat} {p : Char → Bool} {cs text rest pad : List Char}
    (h : run? least p cs = some (text, rest))
    (hpad : rest = [] → ∀ c ∈ pad.head?, p c = false) :
    run? least p (cs ++ pad) = some (text, rest ++ pad) := by
  rw [run?] at h
  split at h
  · rename_i hle
    cases h
    obtain ⟨htake, hdrop⟩ := takeWhile_pad hpad
    rw [run?, htake, hdrop, if_pos hle]
  · cases h

section Pad

variable {pad : List Char} (hpad : ∀ c ∈ pad, isSpace c = true)

include hpad

theorem head?_pad {p : Char → Bool} (hp : ∀ c, isSpace c = true → p c = false) :
    ∀ c ∈ pad.head?, p c = false :=
  fun c hc => hp c (hpad c (List.mem_of_head? hc))

theorem all_isSpace_pad {cs : List Char} (h : cs.all isSpace = true) :
    (cs ++ pad).all isSpace = true := by
  rw [List.all_append, h, Bool.true_and]
  exact List.all_eq_true.mpr hpad

theorem headerName?_pad {line name : List Char} (h : headerName? line = some name) :
    headerName? (line ++ pad) = some name := by
  have hequals : ∀ c, isSpace c = true → (c == '=') = false := by
    intro c hc
    rcases eq_of_isSpace hc with rfl | rfl <;> decide
  obtain @⟨_, _, _, _, _, afterBlanks, _, b, hopening, hb, hname, hblanks, hclosing, hspaces⟩ :=
    headerName?_eq_some_iff.mp h
  -- the blanks in front of the closing signs end before the line does
  have hne : afterBlanks ≠ [] := by
    rintro rfl
    cases hclosing
  exact headerName?_eq_some_iff.mpr <| .intro
    (run?_pad hopening fun hnil => absurd hnil (List.cons_ne_nil _ _)) hb
    (run?_pad hname fun _ => head?_pad hpad fun c => isWordChar_of_isSpace)
    (run?_pad hblanks fun hnil => absurd hnil hne)
    (run?_pad hclosing fun _ => head?_pad hpad hequals) (all_isSpace_pad hpad hspaces)

theorem divertTarget?_pad {cs target : List Char} (h : divertTarget? cs = some target) :
    divertTarget? (cs ++ pad) = some target := by
  unfold divertTarget? at h
  split at h
  · rename_i c rest
    obtain ⟨htake, hdrop⟩ := @takeWhile_pad isWordChar rest pad
      fun _ => head?_pad hpad fun c => isWordChar_of_isSpace
    split at h
    · rename_i hc
      cases h
      obtain ⟨halpha, hspaces⟩ := Bool.and_eq_true_iff.mp hc
      simp only [List.cons_append, divertTarget?, htake, hdrop, halpha,
        all_isSpace_pad hpad hspaces, Bool.and_true, if_true]
    · cases h
  · cases h

end Pad

/-- A word ends where a character follows that does not belong to it, unless that is a colon. -/
theorem namePiece_append {rest : List Char}
    (hrest : ∀ d ∈ rest.head?, isNameChar d = false ∧ d ≠ ':') (c : Char) (cs : List Char) :
    namePiece c (cs ++ rest) = namePiece c cs := by
  obtain ⟨htake, hdrop⟩ := @takeWhile_pad isNameChar cs rest fun _ d hd => (hrest d hd).1
  have hcolon : ((cs ++ rest).dropWhile isNameChar).head? = some ':' ↔
      (cs.dropWhile isNameChar).head? = some ':' := by
    rw [hdrop]
    cases hword : cs.dropWhile isNameChar with
    | cons d ds => rfl
    | nil =>
      constructor
      · intro hhead
        exact absurd rfl (hrest ':' hhead).2
      · rintro ⟨⟩
  rw [namePiece, namePiece, htake]
  simp only [hcolon]

theorem more_namePiece_le (c : Char) (cs : List Char) : (namePiece c cs).more ≤ cs.length := by
  have hlength : (cs.takeWhile isNameChar).length + (cs.dropWhile isNameChar).length = cs.length := by
    rw [← List.length_append, List.takeWhile_append_dropWhile]
  unfold namePiece
  simp only
  split
  · rename_i hcolon
    have hpos : 0 < (cs.dropWhile isNameChar).length :=
      List.length_pos_iff.mpr (by rintro hnil; rw [hnil] at hcolon; cases hcolon)
    simp only [Piece.more]
    omega
  · split
    · simp only [Piece.more]
      omega
    · simp only [Piece.more]
      omega

theorem upTo?_pad {stop : Char} {cs text : List Char} (h : upTo? stop cs = some text)
    (pad : List Char) : upTo? stop (cs ++ pad) = some text ∧ text.length + 1 ≤ cs.length := by
  obtain ⟨hstop, rest, rfl⟩ := upTo?_eq_some h
  constructor
  · rw [List.append_assoc]
    exact upTo?_append hstop _
  · simp only [List.length_append, List.length_cons]
    omega

/-- A literal ends at its closing quote, whatever follows. -/
theorem stringPiece_pad {cs : List Char} {found : Piece} (h : stringPiece ('"' :: cs) = .ok found)
    (pad : List Char) : stringPiece ('"' :: (cs ++ pad)) = .ok found ∧ found.more ≤ cs.length := by
  obtain ⟨text, rest, value, rfl, hliteral, rfl⟩ := stringPiece_eq_ok_iff.mp h
  constructor
  · rw [List.append_assoc]
    exact stringPiece_append hliteral (rest ++ pad)
  · rw [List.length_append]
    exact Nat.le_add_right _ _

theorem conditionPiece_pad {cs : List Char} {found : Piece} (h : conditionPiece cs = .ok found)
    (pad : List Char) : conditionPiece (cs ++ pad) = .ok found ∧ found.more ≤ cs.length := by
  unfold conditionPiece at h ⊢
  split at h
  · cases h
  · rename_i expr hexpr
    obtain ⟨hpad, hle⟩ := upTo?_pad hexpr pad
    simp only [hpad]
    refine ⟨h, ?_⟩
    split at h
    · cases h
    · cases h
      exact hle

theorem scriptPiece_pad {cs : List Char} {found : Piece} (h : scriptPiece cs = .ok found)
    (pad : List Char) : scriptPiece (cs ++ pad) = .ok found ∧ found.more ≤ cs.length := by
  unfold scriptPiece at h ⊢
  split at h
  · cases h
  · rename_i code hcode
    obtain ⟨hpad, hle⟩ := upTo?_pad hcode pad
    simp only [hpad]
    refine ⟨h, ?_⟩
    split at h
    · cases h
    · cases h
      exact hle

/-- **Most pieces stay as they are, whatever follows them.**  Only a comment, a header and a divert
look at the whole rest of their line; a word looks one character ahead. -/
theorem piece_append {atStart : Bool} {c : Char} {cs rest : List Char} {found : Piece}
    (hslash : c ≠ '/') (hequals : c ≠ '=') (hdash : c ≠ '-')
    (hrest : ∀ d ∈ rest.head?, isNameChar d = false ∧ d ≠ ':')
    (h : piece atStart c cs = .ok found) :
    piece atStart c (cs ++ rest) = .ok found ∧ found.more ≤ cs.length := by
  unfold piece at h ⊢
  by_cases hblank : isBlank c = true
  · rw [if_pos hblank] at h ⊢
    cases h
    exact ⟨rfl, Nat.zero_le _⟩
  rw [if_neg hblank, if_neg hslash] at h ⊢
  by_cases hquote : c = '"'
  · subst hquote
    rw [if_pos rfl] at h ⊢
    exact stringPiece_pad h rest
  rw [if_neg hquote, if_neg hequals, if_neg hdash] at h ⊢
  by_cases hbracket : c = '['
  · rw [if_pos hbracket] at h ⊢
    exact conditionPiece_pad h rest
  rw [if_neg hbracket] at h ⊢
  by_cases hbrace : c = '\x7b'
  · rw [if_pos hbrace] at h ⊢
    exact scriptPiece_pad h rest
  rw [if_neg hbrace] at h ⊢
  by_cases hstar : c = '*'
  · rw [if_pos hstar] at h ⊢
    split at h
    · rename_i hmarker
      cases h
      obtain ⟨hstart, hspace⟩ := Bool.and_eq_true_iff.mp hmarker
      rw [hstart, List.head?_append, beq_iff_eq.mp hspace]
      exact ⟨rfl, Nat.zero_le _⟩
    · cases h
  rw [if_neg hstar] at h ⊢
  split at h
  · rename_i hlower
    cases h
    rw [if_pos hlower, namePiece_append hrest]
    exact ⟨rfl, more_namePiece_le c cs⟩
  · cases h

/-- What starts with a slash is a comment. -/
theorem piece_slash {atStart : Bool} {cs : List Char} {found : Piece}
    (h : piece atStart '/' cs = .ok found) : found = .gap cs.length ∧ cs.head? = some '/' := by
  rw [piece, if_neg (by decide), if_pos rfl] at h
  split at h
  · rename_i hcomment
    cases h
    exact ⟨rfl, hcomment⟩
  · cases h

/-- What starts with an equals sign is a header. -/
theorem piece_equals {atStart : Bool} {cs : List Char} {found : Piece}
    (h : piece atStart '=' cs = .ok found) :
    ∃ name, found = .token (.header (String.ofList name)) cs.length ∧ atStart = true ∧
      headerName? ('=' :: cs) = some name := by
  rw [piece, if_neg (by decide), if_neg (by decide), if_neg (by decide), if_pos rfl] at h
  split at h
  · rename_i name hname
    cases h
    cases atStart with
    | false => cases hname
    | true => exact ⟨name, rfl, rfl, hname⟩
  · cases h

/-- What starts with a dash is a divert. -/
theorem piece_dash {atStart : Bool} {cs : List Char} {found : Piece}
    (h : piece atStart '-' cs = .ok found) :
    ∃ target, found = .token (.divert (String.ofList target)) cs.length ∧
      divertTarget? ('-' :: cs) = some target := by
  rw [piece, if_neg (by decide), if_neg (by decide), if_neg (by decide), if_neg (by decide),
    if_pos rfl] at h
  split at h
  · rename_i target htarget
    cases h
    exact ⟨target, rfl, htarget⟩
  · cases h

/-- How a piece changes when the rest of its line grows from `n` to `m` characters: not at all, or it
takes in what is added. -/
inductive Piece.Grows (n m : Nat) : Piece → Piece → Prop
  | same {found : Piece} : found.more ≤ n → Grows n m found found
  | gap : Grows n m (.gap n) (.gap m)
  | token (kind : Token.Kind) : Grows n m (.token kind n) (.token kind m)

/-- **A piece stays as it is, or takes in the spaces and tabs behind its line.** -/
theorem piece_pad {atStart : Bool} {c : Char} {cs pad : List Char} {found : Piece}
    (hpad : ∀ c ∈ pad, isSpace c = true) (h : piece atStart c cs = .ok found) :
    ∃ found', piece atStart c (cs ++ pad) = .ok found' ∧
      Piece.Grows cs.length (cs ++ pad).length found found' := by
  -- a comment, a header and a divert take the whole rest
  by_cases hslash : c = '/'
  · subst hslash
    obtain ⟨rfl, hcomment⟩ := piece_slash h
    obtain ⟨rest, rfl⟩ := List.head?_eq_some_iff.mp hcomment
    exact ⟨_, rfl, .gap⟩
  by_cases hequals : c = '='
  · subst hequals
    obtain ⟨name, rfl, rfl, hname⟩ := piece_equals h
    exact ⟨_, piece_of_headerName? (headerName?_pad hpad hname), .token _⟩
  by_cases hdash : c = '-'
  · subst hdash
    obtain ⟨target, rfl, htarget⟩ := piece_dash h
    exact ⟨_, piece_of_divertTarget? atStart (divertTarget?_pad hpad htarget), .token _⟩
  have hends : ∀ d ∈ pad.head?, isNameChar d = false ∧ d ≠ ':' := by
    intro d hd
    have hspace := hpad d (List.mem_of_head? hd)
    refine ⟨isNameChar_of_isSpace hspace, ?_⟩
    rintro rfl
    cases hspace
  obtain ⟨hpiece, hle⟩ := piece_append hslash hequals hdash hends h
  exact ⟨_, hpiece, .same hle⟩

/-- **Spaces and tabs behind a line do not change its tokens.** -/
theorem LineKinds.pad {atStart : Bool} {cs pad : List Char} {kinds : List Token.Kind}
    (h : LineKinds atStart cs kinds) (hpad : ∀ c ∈ pad, isSpace c = true) :
    LineKinds atStart (cs ++ pad) kinds := by
  have hblanks : ∀ c ∈ pad, isBlank c = true := fun c hc => isBlank_of_isSpace (hpad c hc)
  induction h with
  | nil atStart =>
    cases pad with
    | nil => exact .nil _
    | cons b pad =>
      obtain ⟨hb, hrest⟩ := List.forall_mem_cons.mp hblanks
      have hpad' := (LineKinds.nil false).blanks hrest
      rw [List.append_nil] at hpad'
      exact .cons (piece_of_isBlank atStart hb pad) hpad'
  | @cons atStart c cs found kinds hpiece hrest ih =>
    obtain ⟨found', hpiece', hgrows⟩ := piece_pad hpad hpiece
    have hkind : found'.kind? = found.kind? := by cases hgrows <;> rfl
    have hrest' : LineKinds false ((cs ++ pad).drop found'.more) kinds := by
      cases hgrows with
      | same hle =>
        rw [List.drop_append_of_le_length hle]
        exact ih
      | gap | token =>
        rw [Piece.more, List.drop_length] at hrest ⊢
        exact hrest
    rw [List.cons_append, ← hkind]
    exact .cons hpiece' hrest'

/-! ### Gap lines -/

/-- A line that holds blanks only, or blanks and a comment. -/
def IsGapLine (l : List Char) : Prop :=
  (∀ c ∈ l, isBlank c = true) ∨
    ∃ blanks text, (∀ b ∈ blanks, isBlank b = true) ∧ l = blanks ++ '/' :: '/' :: text

theorem IsGapLine.lineKinds {l : List Char} (h : IsGapLine l) : LineKinds true l [] := by
  rcases h with hblank | ⟨blanks, text, hblanks, rfl⟩
  · have hline := (LineKinds.nil true).indent hblank (by rintro _ ⟨⟩)
    rwa [List.append_nil] at hline
  · have hpiece : piece true '/' ('/' :: text) = .ok (.gap ('/' :: text).length) := rfl
    have hrest : LineKinds false (List.drop (Piece.gap ('/' :: text).length).more ('/' :: text))
        [] := by
      rw [Piece.more, List.drop_length]
      exact .nil _
    refine (LineKinds.cons hpiece hrest).indent hblanks ?_
    rintro _ ⟨⟩
    decide

theorem IsGapLine.indent {blanks l : List Char} (h : IsGapLine l)
    (hblanks : ∀ b ∈ blanks, isBlank b = true) : IsGapLine (blanks ++ l) := by
  rcases h with hblank | ⟨blanks', text, hblanks', rfl⟩
  · exact .inl (List.forall_mem_append.mpr ⟨hblanks, hblank⟩)
  · refine .inr ⟨blanks ++ blanks', text, List.forall_mem_append.mpr ⟨hblanks, hblanks'⟩, ?_⟩
    rw [List.append_assoc]

theorem IsGapLine.pad {pad l : List Char} (h : IsGapLine l) (hpad : ∀ c ∈ pad, isBlank c = true) :
    IsGapLine (l ++ pad) := by
  rcases h with hblank | ⟨blanks, text, hblanks, rfl⟩
  · exact .inl (List.forall_mem_append.mpr ⟨hblank, hpad⟩)
  · refine .inr ⟨blanks, text ++ pad, hblanks, ?_⟩
    rw [List.append_assoc]
    rfl

/-- A gap line without a character at its end is a gap line, unless that was a slash. -/
theorem IsGapLine.of_append {l : List Char} {c : Char} (h : IsGapLine (l ++ [c])) (hc : c ≠ '/') :
    IsGapLine l := by
  rcases h with hblank | ⟨blanks, text, hblanks, heq⟩
  · exact .inl fun d hd => hblank d (List.mem_append_left _ hd)
  · rcases List.eq_nil_or_concat text with rfl | ⟨text', d, rfl⟩
    · have hlast := congrArg List.getLast? heq
      simp only [List.getLast?_append, List.getLast?_cons_cons, List.getLast?_singleton] at hlast
      exact absurd (Option.some.inj hlast) hc
    · rw [List.concat_eq_append, ← List.cons_append, ← List.cons_append, ← List.append_assoc] at heq
      exact .inr ⟨blanks, text', hblanks, List.append_inj_left' heq rfl⟩

end Dialogue.Lexer
