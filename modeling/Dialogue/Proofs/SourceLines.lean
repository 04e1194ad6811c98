import Dialogue.Proofs.Accepted
import Dialogue.Proofs.Positions

/-!
# Scripts line by line

The reader of tokens carries nothing from one line to the next, so the tokens of a text that is put
behind whole lines are its own tokens, further down.  This module says so in two steps: the lines of
such a text are its own lines behind the others (`Text.scriptLines_append`), and lines at other
numbers have the same tokens or the same error, at the positions that a relation between positions
allows (`Lexer.linesTokens_corresponds`).
-/

namespace Dialogue

/-! ### Lines -/

namespace Text

/-- What follows `before` in a text starts a line. -/
def AtLineStart (before : List Char) : Prop :=
  ∀ c ∈ before.getLast?, c = '\n'

theorem atLineStart_nil : AtLineStart [] := by
  rintro _ ⟨⟩

theorem AtLineStart.tail {c : Char} {cs : List Char} (h : AtLineStart (c :: cs)) :
    AtLineStart cs := by
  intro d hd
  apply h
  rw [List.getLast?_cons, hd]
  rfl

/-- A text is whole lines and what stands behind the last line feed. -/
theorem exists_last_line (cs : List Char) :
    ∃ before last, cs = before ++ last ∧ AtLineStart before ∧ '\n' ∉ last := by
  induction cs using List.reverseRecOn with
  | nil => exact ⟨[], [], rfl, atLineStart_nil, List.not_mem_nil⟩
  | append_singleton cs c ih =>
    by_cases hc : c = '\n'
    · refine ⟨cs ++ [c], [], (List.append_nil _).symm, ?_, List.not_mem_nil⟩
      intro d hd
      rw [List.getLast?_concat] at hd
      exact (Option.some.inj hd).symm.trans hc
    · obtain ⟨before, last, rfl, hbefore, hlast⟩ := ih
      refine ⟨before, last ++ [c], List.append_assoc _ _ _, hbefore, ?_⟩
      simp [hlast, Ne.symm hc]

theorem eq_nil_of_lines {cs : List Char} (h : lines cs = []) : cs = [] := by
  revert h
  fun_cases lines cs with
  | case1 => exact fun _ => rfl
  | case2 | case3 | case4 | case5 => rintro ⟨⟩

theorem lines_eq_singleton {l : List Char} (h : '\n' ∉ l) (hne : l ≠ []) : lines l = [l] := by
  induction l with
  | nil => exact absurd rfl hne
  | cons c l ih =>
    have hl : '\n' ∉ l := fun hmem => h (List.mem_cons_of_mem c hmem)
    have hc : c ≠ '\n' := by
      rintro rfl
      exact h List.mem_cons_self
    cases l with
    | nil =>
      rw [lines]
      · rw [lines]
      · exact hc
      · rintro _ - ⟨⟩
    | cons d l =>
      refine lines_cons hc ?_ (ih hl (List.cons_ne_nil d l))
      rintro - ⟨⟩
      exact hl List.mem_cons_self

/-- A carriage return before a line feed belongs to the line end. -/
theorem lines_return {l : List Char} (h : '\n' ∉ l) (rest : List Char) :
    lines (l ++ '\r' :: '\n' :: rest) = l :: lines rest := by
  induction l with
  | nil => rw [List.nil_append, lines]
  | cons c l ih =>
    have hl : '\n' ∉ l := fun hmem => h (List.mem_cons_of_mem c hmem)
    have hc : c ≠ '\n' := by
      rintro rfl
      exact h List.mem_cons_self
    refine lines_cons hc ?_ (ih hl)
    rintro - hhead
    cases l with
    | nil => cases hhead
    | cons d l =>
      cases hhead
      exact hl List.mem_cons_self

/-- **Whole lines in front of a text do not change its lines.** -/
theorem lines_append {a : List Char} (h : AtLineStart a) (b : List Char) :
    lines (a ++ b) = lines a ++ lines b := by
  fun_induction lines a with
  | case1 => rfl
  | case2 cs ih =>
    rw [List.cons_append, lines, ih h.tail]
    rfl
  | case3 cs ih =>
    rw [List.cons_append, List.cons_append, lines, ih h.tail.tail]
    rfl
  | case4 c cs hfeed hreturn hnil ih =>
    obtain rfl := eq_nil_of_lines hnil
    exact absurd (h c rfl) hfeed
  | case5 c cs hfeed hreturn l ls hcons ih =>
    have hrest : lines (cs ++ b) = l :: (ls ++ lines b) := by
      rw [ih h.tail, hcons]
      rfl
    refine lines_cons hfeed ?_ hrest
    rintro rfl hhead
    cases cs with
    | nil => cases hcons
    | cons d cs =>
      cases hhead
      exact hreturn cs rfl rfl

/-- Whole lines are as many as their line feeds. -/
theorem length_lines {a : List Char} (h : AtLineStart a) : (lines a).length = a.count '\n' := by
  fun_induction lines a with
  | case1 => rfl
  | case2 cs ih => rw [List.count_cons_self, List.length_cons, ih h.tail]
  | case3 cs ih =>
    rw [List.count_cons_of_ne (by decide), List.count_cons_self, List.length_cons, ih h.tail.tail]
  | case4 c cs hfeed hreturn hnil ih =>
    obtain rfl := eq_nil_of_lines hnil
    exact absurd (h c rfl) hfeed
  | case5 c cs hfeed hreturn l ls hcons ih =>
    rw [List.count_cons_of_ne hfeed, ← ih h.tail, hcons]
    rfl

/-- A text starts like its first line, unless that one is empty. -/
theorem head?_eq_of_lines {cs first : List Char} {rest : List (List Char)}
    (h : lines cs = first :: rest) : ∀ c ∈ first.head?, cs.head? = some c := by
  revert h
  fun_cases lines cs with
  | case1 => rintro ⟨⟩
  | case2 | case3 =>
    rintro ⟨⟩ _ ⟨⟩
  | case4 | case5 =>
    rintro ⟨⟩
    exact fun _ hc => hc

theorem scriptLines_eq_lines {source : String} (h : source.toList.head? ≠ some byteOrderMark) :
    scriptLines source = lines source.toList := by
  rw [scriptLines]
  cases hlines : lines source.toList with
  | nil => rfl
  | cons first rest =>
    have hfirst : ∀ c ∈ first.head?, (c == byteOrderMark) = false := by
      intro c hc
      rw [beq_eq_false_iff_ne]
      rintro rfl
      exact h (head?_eq_of_lines hlines _ hc)
    simp only [Lexer.dropWhile_eq_self hfirst]

/-- **The lines of a script behind whole lines.** -/
theorem scriptLines_append {a b : String} (ha : AtLineStart a.toList)
    (hb : b.toList.head? ≠ some byteOrderMark) :
    scriptLines (a ++ b) = scriptLines a ++ scriptLines b := by
  rw [scriptLines_eq_lines hb]
  unfold scriptLines
  rw [String.toList_append, lines_append ha]
  cases hlines : lines a.toList with
  | cons first rest => rfl
  | nil => exact scriptLines_eq_lines hb

theorem length_scriptLines {a : String} (h : AtLineStart a.toList) :
    (scriptLines a).length = a.toList.count '\n' := by
  rw [← length_lines h, scriptLines]
  cases lines a.toList <;> rfl

end Text

/-! ### Tokens -/

namespace Lexer

theorem line_of_mem_lineTokens {line column : Nat} {cs : List Char} {ts : List Token}
    (h : lineTokens line column cs = .ok ts) : ∀ t ∈ ts, t.line = line := by
  fun_induction lineTokens line column cs generalizing ts with
  | case1 =>
    cases h
    exact List.forall_mem_nil _
  | case2 | case4 => cases h
  | case3 column c cs more hpiece ih => exact ih h
  | case5 column c cs kind more hpiece tokens htokens ih =>
    cases h
    exact List.forall_mem_cons.mpr ⟨rfl, ih htokens⟩

/-- The tokens of lines stand on these lines. -/
theorem line_bounds_of_mem_linesTokens {line : Nat} {ls : List (List Char)} {ts : List Token}
    (h : linesTokens line ls = .ok ts) : ∀ t ∈ ts, line ≤ t.line ∧ t.line < line + ls.length := by
  fun_induction linesTokens line ls generalizing ts with
  | case1 =>
    cases h
    exact List.forall_mem_nil _
  | case2 | case3 => cases h
  | case4 line l ls tokens hfirst more hrest ih =>
    cases h
    rw [List.length_cons]
    refine List.forall_mem_append.mpr ⟨fun t ht => ?_, fun t ht => ?_⟩
    · have hline := line_of_mem_lineTokens hfirst t ht
      omega
    · have hbounds := ih hrest t ht
      omega

theorem linesTokens_cons (line : Nat) (l : List Char) (ls : List (List Char)) :
    linesTokens line (l :: ls) = (lineTokens line 0 l).bind fun ts =>
      (linesTokens (line + 1) ls).map (ts ++ ·) := by
  rw [linesTokens]
  cases lineTokens line 0 l with
  | error e => rfl
  | ok ts => cases linesTokens (line + 1) ls <;> rfl

theorem exists_of_linesTokens_cons {line : Nat} {l : List Char} {ls : List (List Char)}
    {ts : List Token} (h : linesTokens line (l :: ls) = .ok ts) :
    ∃ first rest, lineTokens line 0 l = .ok first ∧ linesTokens (line + 1) ls = .ok rest ∧
      ts = first ++ rest := by
  rw [linesTokens_cons] at h
  cases hfirst : lineTokens line 0 l with
  | error e =>
    rw [hfirst] at h
    cases h
  | ok first =>
    cases hrest : linesTokens (line + 1) ls with
    | error e =>
      rw [hfirst, hrest] at h
      cases h
    | ok rest =>
      rw [hfirst, hrest] at h
      cases h
      exact ⟨first, rest, rfl, rfl, rfl⟩

/-- The tokens of lines are those of the first lines and those of the others. -/
theorem linesTokens_append (line : Nat) (ls ls' : List (List Char)) :
    linesTokens line (ls ++ ls') = (linesTokens line ls).bind fun ts =>
      (linesTokens (line + ls.length) ls').map (ts ++ ·) := by
  induction ls generalizing line with
  | nil => cases hrest : linesTokens line ls' <;> simp [linesTokens, hrest, Except.bind, Except.map]
  | cons l ls ih =>
    have hnumber : line + (l :: ls).length = line + 1 + ls.length := by
      rw [List.length_cons]
      omega
    rw [List.cons_append, linesTokens_cons, linesTokens_cons, ih, hnumber]
    cases lineTokens line 0 l with
    | error e => rfl
    | ok first =>
      cases linesTokens (line + 1) ls with
      | error e => rfl
      | ok ts =>
        cases linesTokens (line + 1 + ls.length) ls' with
        | error e => rfl
        | ok ts' =>
          show Except.ok (first ++ (ts ++ ts')) = Except.ok (first ++ ts ++ ts')
          rw [List.append_assoc]

variable {R : Position → Position → Prop}

/-- A line at another number has the same tokens or the same error. -/
theorem lineTokens_corresponds {line line' : Nat}
    (hR : ∀ column, R ⟨line, column⟩ ⟨line', column⟩) (column : Nat) (cs : List Char) :
    ResultsCorrespond R (TokensCorrespond R) (lineTokens line column cs)
      (lineTokens line' column cs) := by
  fun_induction lineTokens line column cs with
  | case1 column =>
    rw [lineTokens]
    exact .ok .nil
  | case2 column c cs fault hpiece =>
    rw [lineTokens, hpiece]
    exact .error (.lexical (hR column))
  | case3 column c cs more hpiece ih =>
    rw [lineTokens, hpiece]
    exact ih
  | case4 column c cs kind more hpiece e htokens ih =>
    rw [lineTokens, hpiece]
    rw [htokens] at ih
    dsimp only
    generalize lineTokens line' (column + 1 + more) (cs.drop more) = result at ih ⊢
    cases ih with
    | error he => exact .error he
  | case5 column c cs kind more hpiece tokens htokens ih =>
    rw [lineTokens, hpiece]
    rw [htokens] at ih
    dsimp only
    generalize lineTokens line' (column + 1 + more) (cs.drop more) = result at ih ⊢
    cases ih with
    | ok hrest => exact .ok (.cons ⟨hR column⟩ hrest)

/-- **Lines at other numbers have the same tokens or the same error.** -/
theorem linesTokens_corresponds {line line' : Nat}
    (hR : ∀ i column, R ⟨line + i, column⟩ ⟨line' + i, column⟩) (ls : List (List Char)) :
    ResultsCorrespond R (TokensCorrespond R) (linesTokens line ls) (linesTokens line' ls) := by
  induction ls generalizing line line' with
  | nil => exact .ok .nil
  | cons l ls ih =>
    have hrest : ResultsCorrespond R (TokensCorrespond R) (linesTokens (line + 1) ls)
        (linesTokens (line' + 1) ls) := by
      refine ih fun i column => ?_
      rw [Nat.add_assoc, Nat.add_assoc]
      exact hR (1 + i) column
    rw [linesTokens_cons, linesTokens_cons]
    refine (lineTokens_corresponds (hR 0) 0 l).bind fun ts ts' hts => hrest.map fun us us' hus => ?_
    exact List.rel_append hts hus

end Lexer

end Dialogue
