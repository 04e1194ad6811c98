import Dialogue.Proofs.Gaps
import Dialogue.Proofs.Moves

/-!
# Literals in a line

The texts that a program is written with and the literals of a script are in one notation, so a text
that is quoted for the one can be put into the other.  `tokenize_append_quote` says that it is read
there as one string with that text, at the column where it was put, and that reading goes on with
the character behind the closing quote.  What stands in front may be anything that can be read, as
long as it leaves the rest of its line to be read: a header and a divert take all of it, and so does
a comment.

A piece of a line is found by looking at what follows it, so it has to be said why putting a literal
behind a line changes none of its pieces.  A quote belongs to no word and is no colon, and nothing
else is looked for (`piece_append_of_not_takesLine`).  The rest is one induction along the line
(`lineTokens_append`), which takes any text that starts with such a character.

`literal_found_and_read_iff` goes the other way, from any text behind an opening quote to what is
read there: the one literal that the text starts with, or one of two errors.
-/

namespace Dialogue

open Text

/-- The tokens that go on to the end of their line. -/
def Token.Kind.TakesLine : Token.Kind → Prop
  | header _ => True
  | divert _ => True
  | _ => False

namespace Lexer

/-! ### Reading up to a place in a line -/

/-- Reading the rest of a line comes upon a comment. -/
inductive MeetsComment : Bool → List Char → Prop
  | here (atStart : Bool) (text : List Char) : MeetsComment atStart ('/' :: '/' :: text)
  | behind {atStart : Bool} {c : Char} {cs : List Char} {found : Piece} :
      piece atStart c cs = .ok found → MeetsComment false (cs.drop found.more) →
      MeetsComment atStart (c :: cs)

/-- A token is no comment and hides none. -/
theorem Reads.not_meetsComment {atStart : Bool} {kind : Token.Kind} {text rest : List Char}
    (h : Reads atStart kind text rest) (hrest : ¬ MeetsComment false rest) :
    ¬ MeetsComment atStart (text ++ rest) := by
  obtain ⟨c, cs, rfl, hpiece⟩ := h
  rw [List.cons_append]
  have hdrop : (cs ++ rest).drop cs.length = rest := List.drop_left
  generalize cs ++ rest = tail at hpiece hdrop ⊢
  intro hmeets
  cases hmeets with
  | here _ text =>
    obtain ⟨⟨⟩, -⟩ := piece_slash hpiece
  | behind hpiece' hbehind =>
    cases hpiece.symm.trans hpiece'
    rw [Piece.more, hdrop] at hbehind
    exact hrest hbehind

/-- A piece that leaves the rest of its line is the same in front of more text. -/
theorem piece_append_of_not_takesLine {atStart : Bool} {c : Char} {cs rest : List Char}
    {found : Piece} (h : piece atStart c cs = .ok found)
    (hkind : ∀ kind ∈ found.kind?, ¬ kind.TakesLine) (hcomment : ¬ MeetsComment atStart (c :: cs))
    (hrest : ∀ d ∈ rest.head?, isNameChar d = false ∧ d ≠ ':') :
    piece atStart c (cs ++ rest) = .ok found ∧ found.more ≤ cs.length := by
  have hslash : c ≠ '/' := by
    rintro rfl
    obtain ⟨-, hhead⟩ := piece_slash h
    obtain ⟨text, rfl⟩ := List.head?_eq_some_iff.mp hhead
    exact hcomment (.here atStart text)
  have hequals : c ≠ '=' := by
    rintro rfl
    obtain ⟨name, rfl, -⟩ := piece_equals h
    exact hkind _ rfl trivial
  have hdash : c ≠ '-' := by
    rintro rfl
    obtain ⟨target, rfl, -⟩ := piece_dash h
    exact hkind _ rfl trivial
  exact piece_append hslash hequals hdash hrest h

/-- **Text behind a line is read from where the line ends.** -/
theorem lineTokens_append {line column : Nat} {cs rest : List Char} {ts : List Token}
    (h : lineTokens line column cs = .ok ts) (hkinds : ∀ t ∈ ts, ¬ t.kind.TakesLine)
    (hcomment : ¬ MeetsComment (column == 0) cs)
    (hrest : ∀ d ∈ rest.head?, isNameChar d = false ∧ d ≠ ':') :
    lineTokens line column (cs ++ rest) =
      (lineTokens line (column + cs.length) rest).map (ts ++ ·) := by
  match cs with
  | [] =>
    rw [lineTokens] at h
    cases h
    rw [List.nil_append, List.length_nil, Nat.add_zero]
    cases lineTokens line column rest <;> rfl
  | c :: cs =>
    obtain ⟨found, tokens, hpiece, htokens, rfl⟩ := exists_piece_of_lineTokens h
    rw [List.forall_mem_append] at hkinds
    have hkind : ∀ kind ∈ found.kind?, ¬ kind.TakesLine := by
      intro kind hmem
      apply hkinds.1 ⟨kind, ⟨line, column⟩⟩
      rw [Piece.tokens, hmem]
      exact List.mem_singleton_self _
    obtain ⟨hpiece', hle⟩ := piece_append_of_not_takesLine hpiece hkind hcomment hrest
    have hcomment' : ¬ MeetsComment (column + 1 + found.more == 0) (cs.drop found.more) := by
      rw [beq_false_of_ne (by omega)]
      exact fun hmeets => hcomment (.behind hpiece hmeets)
    have hcolumn :
        column + 1 + found.more + (cs.drop found.more).length = column + (c :: cs).length := by
      rw [List.length_drop, List.length_cons]
      omega
    -- the piece takes as many characters as it did, so both lines go on at the same place
    have hbehind := lineTokens_append htokens hkinds.2 hcomment' hrest
    rw [List.cons_append, lineTokens_cons hpiece', List.drop_append_of_le_length hle, hbehind,
      hcolumn]
    cases lineTokens line (column + (c :: cs).length) rest with
    | error e => rfl
    | ok us =>
      show Except.ok (found.tokens ⟨line, column⟩ ++ (tokens ++ us)) =
        .ok (found.tokens ⟨line, column⟩ ++ tokens ++ us)
      rw [List.append_assoc]
termination_by cs.length
decreasing_by
  rw [List.length_drop, List.length_cons]
  omega

/-- A text without line feeds is one line, or none if it is empty. -/
theorem tokenize_eq_lineTokens {source : String} (hfeed : '\n' ∉ source.toList)
    (hmark : source.toList.head? ≠ some byteOrderMark) :
    tokenize source = lineTokens 0 0 source.toList := by
  rw [tokenize, scriptLines_eq_lines hmark]
  by_cases hnil : source.toList = []
  · rw [hnil, lineTokens]
    rfl
  · rw [lines_eq_singleton hfeed hnil, linesTokens_cons]
    cases lineTokens 0 0 source.toList with
    | error e => rfl
    | ok ts =>
      show Except.ok (ts ++ []) = .ok ts
      rw [List.append_nil]

/-- A line further down has the same tokens, further down. -/
theorem lineTokens_eq_moved (line column : Nat) (cs : List Char) :
    lineTokens line column cs = ((lineTokens 0 column cs).mapError
      (Error.moved (Position.down line))).map (List.map (Token.moved (Position.down line))) := by
  have hbelow : ∀ column, Below line ⟨0, column⟩ ⟨line, column⟩ := by
    intro column
    rw [Below, Position.down, Nat.zero_add]
  exact (lineTokens_corresponds hbelow column cs).eq_moved (fun _ _ h => h)
    fun _ _ h => h.eq_map_moved fun _ _ h => h

/-- A literal behind a line is one token, and reading goes on behind its closing quote. -/
theorem lineTokens_append_encode {line : Nat} {before : List Char} {ts : List Token}
    (h : lineTokens line 0 before = .ok ts) (hkinds : ∀ t ∈ ts, ¬ t.kind.TakesLine)
    (hcomment : ¬ MeetsComment true before) (s : String) (after : List Char) :
    lineTokens line 0 (before ++ (Quoted.encode s.toList ++ after)) =
      (lineTokens line (before.length + (Quoted.encode s.toList).length) after).map
        (ts ++ ⟨.string s, ⟨line, before.length⟩⟩ :: ·) := by
  have hquote : ∀ d ∈ (Quoted.encode s.toList ++ after).head?, isNameChar d = false ∧ d ≠ ':' := by
    rintro _ ⟨⟩
    decide
  have hliteral : Reads (before.length == 0) (.string s) (Quoted.encode s.toList) after :=
    reads_string _ s after
  rw [lineTokens_append h hkinds hcomment hquote, Nat.zero_add, hliteral.lineTokens]
  cases lineTokens line (before.length + (Quoted.encode s.toList).length) after <;> rfl

end Lexer

/-! ### Quoted texts -/

theorem tokenize_quote (s : String) : tokenize (quote s) = .ok [⟨.string s, ⟨0, 0⟩⟩] := by
  have hhead : (quote s).toList.head? ≠ some byteOrderMark := by
    rw [toList_quote]
    rintro ⟨⟩
  have hliteral : Lexer.Reads (0 == 0) (.string s) (Quoted.encode s.toList) [] :=
    Lexer.reads_string _ s []
  rw [Lexer.tokenize_eq_lineTokens (newline_notMem_quote s) hhead, toList_quote,
    ← List.append_nil (Quoted.encode s.toList), hliteral.lineTokens, Lexer.lineTokens]
  rfl

/-- **A quoted text is a literal of that text, wherever it is put.**  Behind whatever can be read
without coming upon a comment, a header or a divert, a quoted text is one string with its value, at
the column where it starts, and reading goes on with the first character behind it.  This holds for
the only line of a script and for every line of a longer one.  A quoted text alone is one token, and
it stays on one line. -/
theorem tokenize_append_quote {before after s : String} {ts : List Token}
    (hbefore : '\n' ∉ before.toList) (hafter : '\n' ∉ after.toList)
    (hmark : before.toList.head? ≠ some byteOrderMark) (hts : tokenize before = .ok ts)
    (hkinds : ∀ t ∈ ts, ¬ t.kind.TakesLine)
    (hcomment : ¬ Lexer.MeetsComment true before.toList) :
    tokenize (before ++ quote s ++ after) =
        (Lexer.lineTokens 0 (before.length + (quote s).length) after.toList).map
          (ts ++ ⟨.string s, ⟨0, before.length⟩⟩ :: ·) ∧
      (∀ line, Lexer.lineTokens line 0 (before ++ quote s ++ after).toList =
        (Lexer.lineTokens line (before.length + (quote s).length) after.toList).map
          (ts.map (Token.moved (Position.down line)) ++
            ⟨.string s, ⟨line, before.length⟩⟩ :: ·)) ∧
      tokenize (quote s) = .ok [⟨.string s, ⟨0, 0⟩⟩] ∧
      Quoted.decode? (quote s).toList = some s.toList ∧ '\n' ∉ (quote s).toList := by
  have hline : Lexer.lineTokens 0 0 before.toList = .ok ts := by
    rw [← Lexer.tokenize_eq_lineTokens hbefore hmark, hts]
  have hshape : (before ++ quote s ++ after).toList =
      before.toList ++ (Quoted.encode s.toList ++ after.toList) := by
    rw [String.toList_append, String.toList_append, toList_quote, List.append_assoc]
  have hlength : before.length + (quote s).length =
      before.toList.length + (Quoted.encode s.toList).length := by
    rw [← toList_quote, String.length_toList, String.length_toList]
  refine ⟨?_, fun line => ?_, tokenize_quote s, ?_, newline_notMem_quote s⟩
  · have hfeed : '\n' ∉ (before ++ quote s ++ after).toList := by
      rw [String.toList_append, String.toList_append, List.mem_append, List.mem_append, not_or,
        not_or]
      exact ⟨⟨hbefore, newline_notMem_quote s⟩, hafter⟩
    have hhead : (before ++ quote s ++ after).toList.head? ≠ some byteOrderMark := by
      rw [hshape]
      cases hbefore : before.toList with
      | nil => rintro ⟨⟩
      | cons c cs =>
        rw [hbefore] at hmark
        exact hmark
    rw [Lexer.tokenize_eq_lineTokens hfeed hhead, hshape, hlength, ← String.length_toList]
    exact Lexer.lineTokens_append_encode hline hkinds hcomment s after.toList
  · have hmoved : Lexer.lineTokens line 0 before.toList =
        .ok (ts.map (Token.moved (Position.down line))) := by
      rw [Lexer.lineTokens_eq_moved, hline]
      rfl
    rw [hshape, hlength, ← String.length_toList]
    refine Lexer.lineTokens_append_encode hmoved ?_ hcomment s after.toList
    exact List.forall_mem_map.mpr hkinds
  · rw [toList_quote, Quoted.decode?_encode]

/-- Backslashes in front of a quote, and a line end. -/
def knottyText : String := "\\\\\"\n"

/-- A literal between a word and a divert, with no blank between them. -/
theorem tokenize_wave_knottyText :
    tokenize "wave" = .ok [⟨.symbol "wave", ⟨0, 0⟩⟩] ∧
      ¬ Lexer.MeetsComment true "wave".toList ∧
      tokenize ("wave" ++ quote knottyText ++ "-> Cave") =
        .ok [⟨.symbol "wave", ⟨0, 0⟩⟩, ⟨.string knottyText, ⟨0, 4⟩⟩, ⟨.divert "Cave", ⟨0, 14⟩⟩] := by
  have hwave : IsRoutineName "wave" := ⟨by decide, by rintro ⟨⟩ <;> decide⟩
  have hcave : IsTarget "Cave" := by decide
  have hword : Lexer.Reads (0 == 0) (.symbol "wave") "wave".toList [] :=
    Lexer.reads_symbol _ hwave (by rintro _ ⟨⟩)
  have hdivert : Lexer.Reads (14 == 0) (.divert "Cave") "-> Cave".toList [] :=
    Lexer.reads_divert _ hcave
  have hts : tokenize "wave" = .ok [⟨.symbol "wave", ⟨0, 0⟩⟩] := by
    rw [Lexer.tokenize_eq_lineTokens (by decide) (by decide), ← List.append_nil "wave".toList,
      hword.lineTokens, Lexer.lineTokens]
    rfl
  have hcomment : ¬ Lexer.MeetsComment true "wave".toList := by
    rw [← List.append_nil "wave".toList]
    exact hword.not_meetsComment (by rintro ⟨⟩)
  have hlength : "wave".length + (quote knottyText).length = 14 := by decide
  have hafter : Lexer.lineTokens 0 14 "-> Cave".toList = .ok [⟨.divert "Cave", ⟨0, 14⟩⟩] := by
    rw [← List.append_nil "-> Cave".toList, hdivert.lineTokens, Lexer.lineTokens]
    rfl
  have hquote := (@tokenize_append_quote "wave" "-> Cave" knottyText _ (by decide) (by decide)
    (by decide) hts (by simp [Token.Kind.TakesLine]) hcomment).1
  rw [hlength, hafter] at hquote
  exact ⟨hts, hcomment, hquote⟩

/-! ### Any text behind a quote -/

namespace Lexer

/-- An error at the place where reading starts is that of the first piece. -/
theorem lineTokens_eq_error_here_iff {line column : Nat} {c : Char} {cs : List Char}
    {fault : LexicalFault} :
    lineTokens line column (c :: cs) = .error (.lexical fault ⟨line, column⟩) ↔
      piece (column == 0) c cs = .error fault := by
  constructor
  · intro h
    cases hpiece : piece (column == 0) c cs with
    | error other =>
      rw [lineTokens, hpiece] at h
      cases h
      rfl
    | ok found =>
      -- what is left of the line starts further on
      rw [lineTokens_cons hpiece] at h
      cases hrest : lineTokens line (column + 1 + found.more) (cs.drop found.more) with
      | ok tokens =>
        rw [hrest] at h
        cases h
      | error e =>
        rw [hrest] at h
        cases h
        obtain ⟨_, at', heq, hle, -⟩ := lineTokens_eq_error hrest
        cases heq
        omega
  · intro h
    rw [lineTokens, h]

theorem piece_quote (atStart : Bool) (cs : List Char) :
    piece atStart '"' cs = stringPiece ('"' :: cs) := by
  rw [piece, if_neg (by decide), if_neg (by decide), if_pos rfl]

end Lexer

/-- **Finding a literal and then reading it is the same as looking for a literal at the start of the
text**, whether its length is counted in characters or in bytes, and there is at most one.  The text
is refused as unterminated if it has no quote outside of pairs, and as invalid if it has one and
still does not start with a literal. -/
theorem literal_found_and_read_iff (cs : List Char) :
    (∀ n value, Quoted.literalLength? ('"' :: cs) = some n ∧
        Quoted.decode? (('"' :: cs).take n) = some value ↔
      n ≤ ('"' :: cs).length ∧ Quoted.IsLiteral (('"' :: cs).take n) value) ∧
    (∀ n value, (Quoted.literalSize? ('"' :: cs) = some n ∧
        ∃ front, Quoted.FirstBytes n front ('"' :: cs) ∧ Quoted.decode? front = some value) ↔
      ∃ front, Quoted.FirstBytes n front ('"' :: cs) ∧ Quoted.IsLiteral front value) ∧
    (∀ literal value literal' value', Quoted.IsLiteral literal value → literal <+: '"' :: cs →
      Quoted.IsLiteral literal' value' → literal' <+: '"' :: cs →
        literal = literal' ∧ value = value') ∧
    (∀ line column,
      Lexer.lineTokens line column ('"' :: cs) =
          .error (.lexical (.unterminated '"') ⟨line, column⟩) ↔ ¬ Quoted.HasBareQuote cs) ∧
    ∀ line column,
      Lexer.lineTokens line column ('"' :: cs) = .error (.lexical .invalidString ⟨line, column⟩) ↔
        Quoted.HasBareQuote cs ∧
          ∀ literal value, literal <+: '"' :: cs → ¬ Quoted.IsLiteral literal value := by
  refine ⟨fun n value => Quoted.literalLength?_and_decode?_iff,
    fun n value => Quoted.literalSize?_and_decode?_iff,
    fun _ _ _ _ => Quoted.IsLiteral.unique, fun line column => ?_, fun line column => ?_⟩
  · rw [Lexer.lineTokens_eq_error_here_iff, Lexer.piece_quote,
      Lexer.stringPiece_eq_unterminated_iff]
  · rw [Lexer.lineTokens_eq_error_here_iff, Lexer.piece_quote,
      Lexer.stringPiece_eq_invalidString_iff]

end Dialogue
