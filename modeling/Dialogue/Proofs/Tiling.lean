import Dialogue.Proofs.Denotation
import Dialogue.Proofs.SourceLines

/-!
# Lexemes cover their line

`Tiling` puts the lexemes of a line next to each other: between them, in front of the first and
behind the last there are only blanks, and a comment may take the rest of the line.  A tiling counts
the characters that it has passed, so a token stands at the column at which its lexeme starts, and
since no lexeme is empty the columns of a line increase.

`tokenize_tiles` is the account of reading a script.  If it succeeds, the tokens come in the order
of their positions and those of each line have a tiling of that line.  If it fails, then at a
character of the script, and all lines in front of that one can be read.
-/

namespace Dialogue

open Text

/-- The order of reading: by lines, and within a line by columns. -/
def Position.Before (p q : Position) : Prop :=
  p.line < q.line ∨ p.line = q.line ∧ p.column < q.column

namespace Lexer

/-! ### Tilings -/

/-- **The lexemes of the rest of a line**, of which `column` characters have been passed, with
nothing but blanks and a comment around them. -/
inductive Tiling (line : Nat) : Nat → List Char → List Token → Prop
  | done (column : Nat) : Tiling line column [] []
  | blank {column : Nat} {c : Char} {cs : List Char} {ts : List Token} : isBlank c = true →
      Tiling line (column + 1) cs ts → Tiling line column (c :: cs) ts
  /-- A comment leaves nothing of its line. -/
  | comment (column : Nat) (text : List Char) : Tiling line column ('/' :: '/' :: text) []
  | token {column : Nat} {c : Char} {cs rest : List Char} {kind : Token.Kind} {ts : List Token} :
      Denotes (c :: cs) kind → Placed (column == 0) rest kind →
      Tiling line (column + (c :: cs).length) rest ts →
      Tiling line column (c :: cs ++ rest) (⟨kind, ⟨line, column⟩⟩ :: ts)

/-- **The tokens of a line tile it.** -/
theorem tiling_of_lineTokens {line column : Nat} {cs : List Char} {ts : List Token}
    (h : lineTokens line column cs = .ok ts) : Tiling line column cs ts := by
  fun_induction lineTokens line column cs generalizing ts with
  | case1 column =>
    cases h
    exact .done column
  | case2 | case4 => cases h
  | case3 column c cs more hpiece ih =>
    have hrest := ih h
    obtain ⟨hblank, rfl⟩ | ⟨rest, rfl, rfl, rfl⟩ := piece_eq_gap hpiece
    · rw [List.drop_zero, Nat.add_zero] at hrest
      exact .blank hblank hrest
    · -- nothing is left behind a comment, so there are no tokens
      rw [List.drop_length] at hrest
      cases hrest
      exact .comment column rest
  | case5 column c cs kind more hpiece tokens htokens ih =>
    cases h
    obtain ⟨text, rest, rfl, rfl, hdenotes, hplaced⟩ := piece_eq_token hpiece
    have hrest := ih htokens
    have hcolumn : column + 1 + text.length = column + (c :: text).length := by
      rw [List.length_cons]
      omega
    rw [List.drop_left, hcolumn] at hrest
    exact .token hdenotes hplaced hrest

namespace Tiling

variable {line column : Nat} {cs : List Char} {ts : List Token}

/-- No token stands in front of the place where a tiling starts. -/
theorem bounds (h : Tiling line column cs ts) :
    ∀ t ∈ ts, t.position.line = line ∧ column ≤ t.position.column := by
  induction h with
  | done | comment => exact List.forall_mem_nil _
  | blank _ _ ih =>
    intro t ht
    obtain ⟨hline, hle⟩ := ih t ht
    exact ⟨hline, by omega⟩
  | token _ _ _ ih =>
    refine List.forall_mem_cons.mpr ⟨⟨rfl, Nat.le_refl _⟩, fun t ht => ?_⟩
    obtain ⟨hline, hle⟩ := ih t ht
    exact ⟨hline, by omega⟩

theorem pairwise_before (h : Tiling line column cs ts) :
    ts.Pairwise fun a b => a.position.Before b.position := by
  induction h with
  | done | comment => exact List.Pairwise.nil
  | blank _ _ ih => exact ih
  | @token column c cs _ _ _ _ _ hrest ih =>
    refine List.Pairwise.cons (fun t ht => ?_) ih
    -- the next lexeme starts at the earliest where this one has ended
    obtain ⟨hline, hle⟩ := hrest.bounds t ht
    have hlt : column < t.position.column := by
      rw [List.length_cons] at hle
      omega
    exact .inr ⟨hline.symm, hlt⟩

end Tiling

/-! ### Lines -/

theorem pairwise_before_of_linesTokens {line : Nat} {ls : List (List Char)} {ts : List Token}
    (h : linesTokens line ls = .ok ts) :
    ts.Pairwise fun a b => a.position.Before b.position := by
  induction ls generalizing line ts with
  | nil =>
    cases h
    exact List.Pairwise.nil
  | cons l ls ih =>
    obtain ⟨first, rest, hfirst, hrest, rfl⟩ := exists_of_linesTokens_cons h
    refine List.pairwise_append.mpr
      ⟨(tiling_of_lineTokens hfirst).pairwise_before, ih hrest, fun a ha b hb => .inl ?_⟩
    have hline : a.position.line = line := line_of_mem_lineTokens hfirst a ha
    have hbound : line + 1 ≤ b.position.line := (line_bounds_of_mem_linesTokens hrest b hb).1
    omega

/-- The tokens that stand on a line are what is read there. -/
theorem lineTokens_of_linesTokens {line : Nat} {ls : List (List Char)} {ts : List Token}
    (h : linesTokens line ls = .ok ts) {i : Nat} {l : List Char} (hl : ls[i]? = some l) :
    lineTokens (line + i) 0 l = .ok (ts.filter (·.line == line + i)) := by
  induction ls generalizing line ts i with
  | nil => cases hl
  | cons l' ls ih =>
    obtain ⟨first, rest, hfirst, hrest, rfl⟩ := exists_of_linesTokens_cons h
    rw [List.filter_append]
    cases i with
    | zero =>
      cases hl
      have hown : first.filter (·.line == line + 0) = first :=
        List.filter_eq_self.mpr fun t ht => beq_iff_eq.mpr (line_of_mem_lineTokens hfirst t ht)
      have hothers : rest.filter (·.line == line + 0) = [] := by
        refine List.filter_eq_nil_iff.mpr fun t ht heq => ?_
        have hbound := (line_bounds_of_mem_linesTokens hrest t ht).1
        have hline := beq_iff_eq.mp heq
        omega
      rw [hown, hothers, List.append_nil]
      exact hfirst
    | succ i =>
      have hothers : first.filter (·.line == line + (i + 1)) = [] := by
        refine List.filter_eq_nil_iff.mpr fun t ht heq => ?_
        have hown := line_of_mem_lineTokens hfirst t ht
        have hline := beq_iff_eq.mp heq
        omega
      have htokens := ih hrest hl
      rw [show line + 1 + i = line + (i + 1) by omega] at htokens
      rw [hothers, List.nil_append]
      exact htokens

/-- **The tokens that stand on a line tile it.** -/
theorem tiling_of_linesTokens {line : Nat} {ls : List (List Char)} {ts : List Token}
    (h : linesTokens line ls = .ok ts) {i : Nat} {l : List Char} (hl : ls[i]? = some l) :
    Tiling (line + i) 0 l (ts.filter (·.line == line + i)) :=
  tiling_of_lineTokens (lineTokens_of_linesTokens h hl)

/-! ### Failures -/

/-- A line cannot be read because of one of its characters. -/
theorem lineTokens_eq_error {line column : Nat} {cs : List Char} {e : Error}
    (h : lineTokens line column cs = .error e) :
    ∃ fault at', e = .lexical fault ⟨line, at'⟩ ∧ column ≤ at' ∧ at' < column + cs.length := by
  fun_induction lineTokens line column cs with
  | case1 => cases h
  | case2 column c cs fault hpiece =>
    cases h
    exact ⟨fault, column, rfl, Nat.le_refl _, by rw [List.length_cons]; omega⟩
  | case3 column c cs more hpiece ih =>
    obtain ⟨fault, at', rfl, hle, hlt⟩ := ih h
    rw [List.length_drop] at hlt
    exact ⟨fault, at', rfl, by omega, by rw [List.length_cons]; omega⟩
  | case4 column c cs kind more hpiece e' htokens ih =>
    cases h
    obtain ⟨fault, at', rfl, hle, hlt⟩ := ih htokens
    rw [List.length_drop] at hlt
    exact ⟨fault, at', rfl, by omega, by rw [List.length_cons]; omega⟩
  | case5 => cases h

/-- **Lines cannot be read because of a character of one of them**, and those in front of it can. -/
theorem linesTokens_eq_error {line : Nat} {ls : List (List Char)} {e : Error}
    (h : linesTokens line ls = .error e) :
    ∃ fault i column l, e = .lexical fault ⟨line + i, column⟩ ∧ ls[i]? = some l ∧
      column < l.length ∧
      ∀ j < i, ∃ l' ts, ls[j]? = some l' ∧ lineTokens (line + j) 0 l' = .ok ts := by
  induction ls generalizing line with
  | nil => cases h
  | cons l ls ih =>
    rw [linesTokens_cons] at h
    cases hfirst : lineTokens line 0 l with
    | error e' =>
      rw [hfirst] at h
      cases h
      obtain ⟨fault, column, rfl, -, hlt⟩ := lineTokens_eq_error hfirst
      rw [Nat.zero_add] at hlt
      exact ⟨fault, 0, column, l, rfl, rfl, hlt, fun j hj => absurd hj (Nat.not_lt_zero j)⟩
    | ok first =>
      cases hrest : linesTokens (line + 1) ls with
      | ok rest =>
        rw [hfirst, hrest] at h
        cases h
      | error e' =>
        rw [hfirst, hrest] at h
        cases h
        obtain ⟨fault, i, column, l', rfl, hl', hlt, hearlier⟩ := ih hrest
        refine ⟨fault, i + 1, column, l', ?_, hl', hlt, fun j hj => ?_⟩
        · rw [show line + 1 + i = line + (i + 1) by omega]
        · cases j with
          | zero => exact ⟨l, first, rfl, hfirst⟩
          | succ j =>
            obtain ⟨l'', ts, hl'', hts⟩ := hearlier j (by omega)
            rw [show line + 1 + j = line + (j + 1) by omega] at hts
            exact ⟨l'', ts, hl'', hts⟩

end Lexer

/-! ### Scripts -/

/-- **Tokens tile the lines of their script.**  If a script can be read, the tokens come in the
order of their positions, and those of each line have its lexemes: each starts at the column of its
token and denotes it, and around them the line has blanks and at most one comment, at its end.  If a
script cannot be read, then because of a character of one of its lines, and the lines before can
be. -/
theorem tokenize_tiles (source : String) :
    (∀ ts, tokenize source = .ok ts →
      ts.Pairwise (fun a b => a.position.Before b.position) ∧
      (∀ t ∈ ts, t.line < (scriptLines source).length) ∧
      ∀ (i : Nat) (l : List Char), (scriptLines source)[i]? = some l →
        Lexer.Tiling i 0 l (ts.filter (·.line == i))) ∧
    ∀ e, tokenize source = .error e →
      ∃ fault p l, e = .lexical fault p ∧ (scriptLines source)[p.line]? = some l ∧
        p.column < l.length ∧
        ∀ i < p.line, ∃ l' ts, (scriptLines source)[i]? = some l' ∧
          Lexer.lineTokens i 0 l' = .ok ts := by
  constructor
  · intro ts h
    refine ⟨Lexer.pairwise_before_of_linesTokens h, fun t ht => ?_, fun i l hl => ?_⟩
    · have hbound := (Lexer.line_bounds_of_mem_linesTokens h t ht).2
      omega
    · have htiling := Lexer.tiling_of_linesTokens h hl
      rw [Nat.zero_add] at htiling
      exact htiling
  · intro e h
    obtain ⟨fault, i, column, l, rfl, hl, hlt, hearlier⟩ := Lexer.linesTokens_eq_error h
    simp only [Nat.zero_add] at hearlier ⊢
    exact ⟨fault, ⟨i, column⟩, l, rfl, hl, hlt, hearlier⟩

end Dialogue
