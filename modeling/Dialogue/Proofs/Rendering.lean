import Dialogue.Proofs.LayoutEdits
import Dialogue.Proofs.Tiling

/-!
# Tokens as text

`renderTokens` writes tokens as a source: each token on the line that it stands on, in one spelling
for each kind, and one space between the tokens of a line.  A source that is read and written in
this way is read again as the same tokens on the same lines, so writing it once more changes nothing
(`tokenize_renderTokens`).

Two things are behind this.  The tokens of a line can share a line: a header is alone, a divert
comes last, and a marker comes first (`Lexer.Tiling.shares`).  And tokens that can do so are read
back from their spellings (`Shares.lineKinds`).  The spelling of a marker has the space that must
follow it, since it may be all there is on its line.
-/

namespace Dialogue

open Text

/-! ### Spellings -/

/-- The spelling of a token: its text, and a space behind a marker. -/
def Token.Kind.spelling : Token.Kind → List Char
  | marker => ['*', ' ']
  | kind => kind.lexeme

/-- The text of a line: the spellings of its tokens, a space between two of them. -/
def spellLine (kinds : List Token.Kind) : List Char :=
  [' '].intercalate (kinds.map Token.Kind.spelling)

/-- The number of lines that tokens need. -/
def lineCount (ts : List Token) : Nat :=
  ts.foldr (fun t n => max (t.line + 1) n) 0

/-- The kinds of the tokens on a line. -/
def kindsOn (line : Nat) (ts : List Token) : List Token.Kind :=
  (ts.filter (·.line == line)).map (·.kind)

/-- **Tokens as a source**, each on the line that it stands on. -/
def renderTokens (ts : List Token) : String :=
  String.ofList ((List.range (lineCount ts)).flatMap fun i => spellLine (kindsOn i ts) ++ ['\n'])

/-- What a token says and the number of its line. -/
def Token.label (t : Token) : Token.Kind × Nat :=
  (t.kind, t.line)

theorem lt_lineCount {ts : List Token} : ∀ t ∈ ts, t.line < lineCount ts := by
  induction ts with
  | nil => exact List.forall_mem_nil _
  | cons u ts ih =>
    refine List.forall_mem_cons.mpr ⟨?_, fun t ht => ?_⟩
    · exact Nat.le_max_left _ _
    · exact Nat.lt_of_lt_of_le (ih t ht) (Nat.le_max_right _ _)

/-- Columns have no part in the text of tokens. -/
theorem renderTokens_congr {ts ts' : List Token} (h : ts.map Token.label = ts'.map Token.label) :
    renderTokens ts = renderTokens ts' := by
  have hcount : ∀ us, lineCount us = (us.map Token.label).foldr (fun l n => max (l.2 + 1) n) 0 := by
    intro us
    rw [List.foldr_map]
    rfl
  have hkinds : ∀ i us, kindsOn i us = ((us.map Token.label).filter (·.2 == i)).map (·.1) := by
    intro i us
    rw [List.filter_map, List.map_map]
    rfl
  simp only [renderTokens, hcount, hkinds, h]

/-! ### Tokens that share a line -/

/-- Kinds that can share a line, in this order.  Unlike in `LineFits`, a marker may be alone. -/
def Shares : List Token.Kind → Prop
  | [] => True
  | kind :: kinds =>
    kind.WellFormed ∧ (kind = .marker ∨ kind.Stands true kinds) ∧ LineFits false kinds

theorem LineFits.marker_notMem {kinds : List Token.Kind} (h : LineFits false kinds) :
    .marker ∉ kinds := by
  induction kinds with
  | nil => exact List.not_mem_nil
  | cons kind kinds ih =>
    obtain ⟨-, hstands, hkinds⟩ := h
    rw [List.mem_cons, not_or]
    refine ⟨?_, ih hkinds⟩
    rintro rfl
    exact absurd hstands.1 Bool.false_ne_true

theorem LineFits.shares {kinds : List Token.Kind} (h : LineFits false kinds) : Shares kinds := by
  cases kinds with
  | nil => trivial
  | cons kind kinds =>
    obtain ⟨hkind, hstands, hkinds⟩ := h
    refine ⟨hkind, .inr ?_, hkinds⟩
    cases kind with
    | header | marker => exact absurd hstands.1 Bool.false_ne_true
    | divert => exact hstands
    | _ => trivial

namespace Lexer

/-- A header and a divert leave nothing of their line, so they have no tokens behind them. -/
theorem Placed.stands {atStart : Bool} {rest : List Char} {kind : Token.Kind} {line column : Nat}
    {ts : List Token} (h : Placed atStart rest kind) (hrest : Tiling line column rest ts)
    (hmarker : kind ≠ .marker) : kind.Stands atStart (ts.map (·.kind)) := by
  have hnil : rest = [] → ts.map (·.kind) = [] := by
    rintro rfl
    cases hrest
    rfl
  cases kind with
  | header => exact ⟨h.1, hnil h.2⟩
  | divert => exact hnil h
  | marker => exact absurd rfl hmarker
  | _ => trivial

namespace Tiling

variable {line column : Nat} {cs : List Char} {ts : List Token}

theorem lineFits (h : Tiling line column cs ts) (hcolumn : 0 < column)
    (hwf : ∀ t ∈ ts, t.kind.WellFormed) : LineFits false (ts.map (·.kind)) := by
  induction h with
  | done | comment => trivial
  | blank _ _ ih => exact ih (Nat.succ_pos _) hwf
  | token _ hplaced hrest ih =>
    obtain ⟨hkind, hkinds⟩ := List.forall_mem_cons.mp hwf
    have hstart : (_ == 0) = false := beq_false_of_ne (Nat.ne_of_gt hcolumn)
    rw [hstart] at hplaced
    refine ⟨hkind, hplaced.stands hrest ?_, ih (Nat.add_pos_left hcolumn _) hkinds⟩
    rintro rfl
    exact absurd hplaced.1 Bool.false_ne_true

/-- **The tokens of a line can share a line.** -/
theorem shares (h : Tiling line 0 cs ts) (hwf : ∀ t ∈ ts, t.kind.WellFormed) :
    Shares (ts.map (·.kind)) := by
  cases h with
  | done | comment => trivial
  | blank _ hrest => exact (hrest.lineFits Nat.one_pos hwf).shares
  | @token _ _ _ _ kind _ _ hplaced hrest =>
    obtain ⟨hkind, hkinds⟩ := List.forall_mem_cons.mp hwf
    refine ⟨hkind, ?_, hrest.lineFits (by rw [List.length_cons]; omega) hkinds⟩
    by_cases hmarker : kind = .marker
    · exact .inl hmarker
    · exact .inr (hplaced.stands hrest hmarker)

end Tiling

end Lexer

theorem shares_kindsOn {source : String} {ts : List Token} (h : tokenize source = .ok ts)
    (i : Nat) : Shares (kindsOn i ts) := by
  cases hl : (scriptLines source)[i]? with
  | none =>
    -- no token stands behind the last line
    have hnone : ts.filter (·.line == i) = [] := by
      refine List.filter_eq_nil_iff.mpr fun t ht heq => ?_
      have hbound := (Lexer.line_bounds_of_mem_linesTokens h t ht).2
      have hle := List.getElem?_eq_none_iff.mp hl
      have hline := beq_iff_eq.mp heq
      omega
    rw [kindsOn, hnone]
    trivial
  | some l =>
    have htiling := Lexer.tiling_of_linesTokens h hl
    rw [Nat.zero_add] at htiling
    exact htiling.shares fun t ht => wellFormed_of_tokenize h t (List.mem_of_mem_filter ht)

/-! ### Reading a spelled line -/

theorem Token.Kind.spelling_of_ne {kind : Token.Kind} (h : kind ≠ .marker) :
    kind.spelling = kind.lexeme := by
  cases kind with
  | marker => exact absurd rfl h
  | _ => rfl

/-- Behind the first token of a line spellings are texts. -/
theorem spellLine_cons {kinds : List Token.Kind} (h : LineFits false kinds) (kind : Token.Kind) :
    spellLine (kind :: kinds) = kind.spelling ++ printBehind kinds := by
  induction kinds generalizing kind with
  | nil => rw [spellLine, printBehind, List.append_nil, List.map_singleton,
      List.intercalate_singleton]
  | cons next kinds ih =>
    have hnext : next ≠ .marker := fun heq => h.marker_notMem (heq ▸ List.mem_cons_self)
    have hrest := ih h.2.2 next
    rw [spellLine, List.map_cons] at hrest
    rw [spellLine, List.map_cons, List.map_cons, List.intercalate_cons_cons, hrest,
      Token.Kind.spelling_of_ne hnext]
    simp only [printBehind, List.append_assoc, List.singleton_append]

namespace Lexer

theorem Reads.lineKinds {atStart : Bool} {kind : Token.Kind} {text rest : List Char}
    {kinds : List Token.Kind} (h : Reads atStart kind text rest)
    (hrest : LineKinds false rest kinds) : LineKinds atStart (text ++ rest) (kind :: kinds) := by
  obtain ⟨c, cs, rfl, hpiece⟩ := h
  refine .cons hpiece ?_
  rw [Piece.more, List.drop_left]
  exact hrest

theorem LineKinds.space {cs : List Char} {kinds : List Token.Kind} (h : LineKinds false cs kinds) :
    LineKinds false (' ' :: cs) kinds :=
  .cons (piece_of_isBlank false (by decide) cs) h

theorem lineKinds_printBehind {kinds : List Token.Kind} (h : LineFits false kinds) :
    LineKinds false (printBehind kinds) kinds := by
  induction kinds with
  | nil => exact .nil false
  | cons kind kinds ih => exact ((reads_lexeme h.1 h.2.1).lineKinds (ih h.2.2)).space

end Lexer

namespace Shares

variable {kinds : List Token.Kind}

/-- **Tokens that share a line are read back from their spellings.** -/
theorem lineKinds (h : Shares kinds) : Lexer.LineKinds true (spellLine kinds) kinds := by
  cases kinds with
  | nil => exact .nil true
  | cons kind kinds =>
    obtain ⟨hkind, hstands, hkinds⟩ := h
    have hbehind := Lexer.lineKinds_printBehind hkinds
    rw [spellLine_cons hkinds]
    by_cases hmarker : kind = .marker
    · subst hmarker
      exact (Lexer.reads_marker (printBehind kinds)).lineKinds hbehind.space
    · rw [Token.Kind.spelling_of_ne hmarker]
      exact (Lexer.reads_lexeme hkind (hstands.resolve_left hmarker)).lineKinds hbehind

theorem isLineText (h : Shares kinds) : IsLineText (spellLine kinds) := by
  cases kinds with
  | nil => exact .nil
  | cons kind kinds =>
    obtain ⟨hkind, -, hkinds⟩ := h
    have hspelling : IsLineText kind.spelling := by
      by_cases hmarker : kind = .marker
      · subst hmarker
        decide
      · rw [Token.Kind.spelling_of_ne hmarker]
        exact isLineText_lexeme hkind
    rw [spellLine_cons hkinds]
    exact hspelling.append (isLineText_printBehind hkinds)

end Shares

/-! ### Reading spelled lines -/

/-- The lines of a source that is made of spelled lines. -/
theorem scriptLines_spellLines {lines : List (List Token.Kind)}
    (h : ∀ kinds ∈ lines, Shares kinds) :
    scriptLines (String.ofList (lines.flatMap fun kinds => spellLine kinds ++ ['\n'])) =
      lines.map spellLine := by
  have htexts : ∀ l ∈ lines.map spellLine, IsLineText l :=
    List.forall_mem_map.mpr fun kinds hkinds => (h kinds hkinds).isLineText
  have hsplit := lines_flatMap htexts
  rw [List.flatMap_map] at hsplit
  rw [scriptLines_eq_lines, String.toList_ofList, hsplit]
  rw [String.toList_ofList]
  cases lines with
  | nil => rintro ⟨⟩
  | cons kinds lines =>
    have hhead := (h kinds List.mem_cons_self).lineKinds.head?_ne_byteOrderMark
    rw [List.flatMap_cons, List.append_assoc, List.singleton_append]
    generalize spellLine kinds = l at hhead ⊢
    cases l with
    | nil => exact fun heq => absurd (Option.some.inj heq) (by decide)
    | cons c l => exact hhead

/-- Spelled lines have the tokens they were spelled from. -/
theorem exists_linesTokens_spellLine {f : Nat → List Token}
    (hshares : ∀ i, Shares ((f i).map (·.kind))) (hline : ∀ i, ∀ t ∈ f i, t.line = i) (start n : Nat) :
    ∃ ts, Lexer.linesTokens start
        ((List.range' start n).map fun i => spellLine ((f i).map (·.kind))) = .ok ts ∧
      ts.map Token.label = ((List.range' start n).flatMap f).map Token.label := by
  induction n generalizing start with
  | zero => exact ⟨[], rfl, rfl⟩
  | succ n ih =>
    obtain ⟨first, hfirst, hkinds, hfirstLine⟩ := (hshares start).lineKinds.exists_tokens start
    obtain ⟨rest, hrest, hlabels⟩ := ih (start + 1)
    refine ⟨first ++ rest, ?_, ?_⟩
    · rw [List.range'_succ, List.map_cons, Lexer.linesTokens_cons, hfirst, Except.bind, hrest]
      rfl
    · -- both are the same kinds on one line
      have hlabel : ∀ us : List Token, (∀ t ∈ us, t.line = start) →
          us.map Token.label = (us.map (·.kind)).map (·, start) := by
        intro us hus
        rw [List.map_map]
        exact List.map_congr_left fun t ht => Prod.ext rfl (hus t ht)
      rw [List.range'_succ, List.flatMap_cons, List.map_append, List.map_append, hlabels,
        hlabel first hfirstLine, hlabel (f start) (hline start), hkinds]

/-! ### Tokens line by line -/

theorem filter_line_lt_succ {ts : List Token} (h : ts.Pairwise fun a b => a.line ≤ b.line)
    (n : Nat) : ts.filter (·.line < n + 1) = ts.filter (·.line < n) ++ ts.filter (·.line == n) := by
  induction ts with
  | nil => rfl
  | cons t ts ih =>
    obtain ⟨hle, hpairwise⟩ := List.pairwise_cons.mp h
    have hrest := ih hpairwise
    simp only [List.filter_cons, decide_eq_true_eq, beq_iff_eq]
    rcases Nat.lt_trichotomy t.line n with hlt | heq | hgt
    · have hsucc : t.line < n + 1 := by omega
      have hne : t.line ≠ n := by omega
      rw [if_pos hsucc, if_pos hlt, if_neg hne, hrest, List.cons_append]
    · have hsucc : t.line < n + 1 := by omega
      have hlt : ¬ t.line < n := by omega
      -- no token behind this one stands in front of its line
      have hnone : ts.filter (·.line < n) = [] := by
        refine List.filter_eq_nil_iff.mpr fun u hu hu' => ?_
        have hbefore := of_decide_eq_true hu'
        have hbound := hle u hu
        omega
      rw [if_pos hsucc, if_neg hlt, if_pos heq, hrest, hnone, List.nil_append, List.nil_append]
    · have hsucc : ¬ t.line < n + 1 := by omega
      have hlt : ¬ t.line < n := by omega
      have hne : t.line ≠ n := by omega
      rw [if_neg hsucc, if_neg hlt, if_neg hne, hrest]

/-- **Tokens in the order of their lines are those of each line, one line after the other.** -/
theorem flatMap_filter_line {ts : List Token} (h : ts.Pairwise fun a b => a.line ≤ b.line)
    (n : Nat) : (List.range n).flatMap (fun i => ts.filter (·.line == i)) =
      ts.filter (·.line < n) := by
  induction n with
  | zero => simp
  | succ n ih =>
    rw [List.range_succ, List.flatMap_append, ih, filter_line_lt_succ h, List.flatMap_singleton]

/-! ### The theorem -/

/-- **Writing tokens and reading them again is stable.**  The tokens of a source, written each on
its line, are read as the same kinds with the same texts on the same lines, and written again they
are the same source. -/
theorem tokenize_renderTokens {source : String} {ts : List Token} (h : tokenize source = .ok ts) :
    ∃ ts', tokenize (renderTokens ts) = .ok ts' ∧
      ts'.map (fun t => (t.kind, t.line)) = ts.map (fun t => (t.kind, t.line)) ∧
      renderTokens ts' = renderTokens ts := by
  have hsorted : ts.Pairwise fun a b => a.line ≤ b.line :=
    (Lexer.pairwise_before_of_linesTokens h).imp fun hbefore => by
      rcases hbefore with hlt | ⟨heq, -⟩
      · exact Nat.le_of_lt hlt
      · exact Nat.le_of_eq heq
  have hall : ts.filter (·.line < lineCount ts) = ts :=
    List.filter_eq_self.mpr fun t ht => decide_eq_true (lt_lineCount t ht)
  obtain ⟨ts', htokens, hlabels⟩ := exists_linesTokens_spellLine
    (f := fun i => ts.filter (·.line == i)) (shares_kindsOn h)
    (fun i t ht => beq_iff_eq.mp (List.mem_filter.mp ht).2) 0 (lineCount ts)
  rw [← List.range_eq_range', flatMap_filter_line hsorted, hall] at hlabels
  refine ⟨ts', ?_, hlabels, renderTokens_congr hlabels⟩
  have hlines : scriptLines (renderTokens ts) =
      (List.range (lineCount ts)).map fun i => spellLine (kindsOn i ts) := by
    have hspelled := @scriptLines_spellLines ((List.range (lineCount ts)).map (kindsOn · ts))
      (List.forall_mem_map.mpr fun i _ => shares_kindsOn h i)
    rw [List.flatMap_map, List.map_map] at hspelled
    exact hspelled
  rw [tokenize, hlines, List.range_eq_range']
  exact htokens

/-- A source with an empty line, and with a space less than its tokens are written with. -/
def gateSource : String :=
  printLines [[.header "Gate"], [], [.marker, .string "\r\"", .divert "Hall"]]

theorem tokenize_renderTokens_gateSource :
    ∃ ts, tokenize gateSource = .ok ts ∧
      renderTokens ts = "=== Gate ===\n\n*  \"\\r\\\"\" -> Hall\n" ∧
      ∃ ts', tokenize (renderTokens ts) = .ok ts' ∧
        ts'.map (fun t => (t.kind, t.line)) = ts.map (fun t => (t.kind, t.line)) ∧
        renderTokens ts' = renderTokens ts := by
  have hgate : IsSegmentName "Gate" := by decide
  have hhall : IsTarget "Hall" := by decide
  have htokens : tokenize gateSource = .ok (laidLines 0
      [[.header "Gate"], [], [.marker, .string "\r\"", .divert "Hall"]]) := by
    refine tokenize_printLines ?_
    simp [LineFits, Token.Kind.WellFormed, Token.Kind.Stands, hgate, hhall]
  exact ⟨_, htokens, by decide, tokenize_renderTokens htokens⟩

end Dialogue
