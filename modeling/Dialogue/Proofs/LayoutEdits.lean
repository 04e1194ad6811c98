import Dialogue.Proofs.Compilation
import Dialogue.Proofs.Gaps
import Dialogue.Proofs.SourceLines

/-!
# Layout does not matter

A `LayoutEdit` changes a text in a way that only a reader can see: it adds a line of blanks or a
comment line, it indents a line, or it adds spaces and tabs at the end of a line.  No number of such
edits changes what a script is read as, or the program that it is compiled to
(`readScript_of_layoutEdits`).

The edits are followed on the *rows* of a text, which are what stands between its line feeds.  Each
row has the kinds of its tokens, and an edit keeps these but for rows without any, which come and go
(`Rows.edit`).  So the tokens of both texts are the same ones in the same groups, a group to a line,
and tokens that are grouped alike correspond (`Grouped.exists_corresponds`).

A carriage return in front of a line feed belongs to the line end, until a space is put between the
two.  That is why the text that is edited has none of them, and why a row that has one, which must
have been added, is known to hold nothing but blanks or a comment.
-/

namespace Dialogue

open Text Lexer Relation

/-! ### Edits -/

/-- What stands in front of `after` in a text is the end of a line. -/
def Text.AtLineEnd (after : List Char) : Prop :=
  after = [] ∨ (∃ rest, after = '\n' :: rest) ∨ ∃ rest, after = '\r' :: '\n' :: rest

/-- A change to the layout of a text. -/
inductive LayoutEdit : List Char → List Char → Prop
  /-- A new line between two lines, or in front of the first one. -/
  | insertLine {before after line : List Char} : AtLineStart before → '\n' ∉ line →
      IsGapLine line → LayoutEdit (before ++ after) (before ++ line ++ '\n' :: after)
  /-- A new last line behind a line that is ended by a line feed. -/
  | addLine {text line : List Char} : AtLineStart text → '\n' ∉ line → IsGapLine line →
      LayoutEdit text (text ++ line)
  /-- A new last line behind a line that is not. -/
  | breakLine {text line : List Char} : '\n' ∉ line → IsGapLine line →
      LayoutEdit text (text ++ '\n' :: line)
  /-- Blanks in front of a line that does not start like a header or a choice. -/
  | indent {before after blanks : List Char} : AtLineStart before →
      (∀ b ∈ blanks, isBlank b = true ∧ b ≠ '\n' ∧ b ≠ '\r') →
      (∀ c ∈ after.head?, c ≠ '=' ∧ c ≠ '*') → LayoutEdit (before ++ after) (before ++ blanks ++ after)
  /-- Spaces and tabs at the end of a line. -/
  | pad {before after pad : List Char} : AtLineEnd after → (∀ c ∈ pad, isSpace c = true) →
      LayoutEdit (before ++ after) (before ++ pad ++ after)

/-! ### Rows -/

/-- What stands between the line feeds of a text. -/
def Text.rows (text : List Char) : List (List Char) :=
  text.splitOn '\n'

namespace Text

theorem rows_eq_singleton {l : List Char} (h : '\n' ∉ l) : rows l = [l] :=
  List.splitOn_eq_singleton h

theorem rows_feed {l : List Char} (h : '\n' ∉ l) (rest : List Char) :
    rows (l ++ '\n' :: rest) = l :: rows rest :=
  List.splitOn_append_cons_self_of_not_mem h rest

/-- What stands behind whole lines has rows of its own. -/
theorem AtLineStart.exists_rows {before : List Char} (h : AtLineStart before) :
    ∃ front, ∀ after, rows (before ++ after) = front ++ rows after := by
  rcases List.eq_nil_or_concat before with rfl | ⟨text, c, rfl⟩
  · exact ⟨[], fun after => rfl⟩
  · rw [List.concat_eq_append] at h ⊢
    obtain rfl : c = '\n' := h c (by rw [List.getLast?_concat]; rfl)
    refine ⟨rows text, fun after => ?_⟩
    rw [List.append_assoc]
    exact List.splitOn_append_cons_self text after

/-- A text without line feeds goes to the first row of what follows. -/
theorem exists_rows_append {text : List Char} (h : '\n' ∉ text) (after : List Char) :
    ∃ l rest, rows after = l :: rest ∧ rows (text ++ after) = (text ++ l) :: rest ∧
      ∀ c ∈ l.head?, after.head? = some c := by
  by_cases hmem : '\n' ∈ after
  · obtain ⟨l, rest, rfl, hl⟩ := List.eq_append_cons_of_mem hmem
    refine ⟨l, rows rest, rows_feed hl rest, ?_, ?_⟩
    · rw [← List.append_assoc]
      exact rows_feed (by simp [h, hl]) rest
    · intro c hc
      rw [List.head?_append, hc]
      rfl
  · exact ⟨after, [], rows_eq_singleton hmem, rows_eq_singleton (by simp [h, hmem]), fun _ hc => hc⟩

/-- The end of a line is the end of its row, but for a carriage return. -/
theorem AtLineEnd.exists_rows {after : List Char} (h : AtLineEnd after) :
    ∃ ending rest, (ending = [] ∨ ending = ['\r']) ∧
      ∀ l, '\n' ∉ l → rows (l ++ after) = (l ++ ending) :: rest := by
  rcases h with rfl | ⟨rest, rfl⟩ | ⟨rest, rfl⟩
  · refine ⟨[], [], .inl rfl, fun l hl => ?_⟩
    rw [List.append_nil, rows_eq_singleton hl]
  · refine ⟨[], rows rest, .inl rfl, fun l hl => ?_⟩
    rw [List.append_nil, rows_feed hl]
  · refine ⟨['\r'], rows rest, .inr rfl, fun l hl => ?_⟩
    have hl' : '\n' ∉ l ++ ['\r'] := by simp [hl]
    rw [← rows_feed hl', List.append_assoc]
    rfl

end Text

/-! ### What an edit keeps -/

/-- The kinds of the tokens in a row.  A row with a carriage return has none. -/
inductive RowKinds : List Char → List Token.Kind → Prop
  | plain {l : List Char} {kinds : List Token.Kind} : '\r' ∉ l → LineKinds true l kinds →
      RowKinds l kinds
  | gap {l : List Char} : IsGapLine l → RowKinds l []

theorem RowKinds.lineKinds {l : List Char} {kinds : List Token.Kind} (h : RowKinds l kinds) :
    LineKinds true l kinds := by
  cases h with
  | plain _ hkinds => exact hkinds
  | gap hgap => exact hgap.lineKinds

theorem RowKinds.indent {l blanks : List Char} {kinds : List Token.Kind} (h : RowKinds l kinds)
    (hblanks : ∀ b ∈ blanks, isBlank b = true ∧ b ≠ '\n' ∧ b ≠ '\r')
    (hhead : ∀ c ∈ l.head?, c ≠ '=' ∧ c ≠ '*') : RowKinds (blanks ++ l) kinds := by
  have hblank : ∀ b ∈ blanks, isBlank b = true := fun b hb => (hblanks b hb).1
  cases h with
  | plain hreturn hkinds =>
    refine .plain ?_ (hkinds.indent hblank hhead)
    intro hmem
    rcases List.mem_append.mp hmem with hmem | hmem
    · exact (hblanks _ hmem).2.2 rfl
    · exact hreturn hmem
  | gap hgap => exact .gap (hgap.indent hblank)

theorem RowKinds.pad {l pad ending : List Char} {kinds : List Token.Kind}
    (hending : ending = [] ∨ ending = ['\r']) (h : RowKinds (l ++ ending) kinds)
    (hpad : ∀ c ∈ pad, isSpace c = true) : RowKinds (l ++ pad ++ ending) kinds := by
  have hblanks : ∀ c ∈ pad, isBlank c = true := fun c hc => isBlank_of_isSpace (hpad c hc)
  rcases hending with rfl | rfl
  · rw [List.append_nil] at h ⊢
    cases h with
    | plain hreturn hkinds =>
      refine .plain ?_ (hkinds.pad hpad)
      intro hmem
      rcases List.mem_append.mp hmem with hmem | hmem
      · exact hreturn hmem
      · cases hpad _ hmem
    | gap hgap => exact .gap (hgap.pad hblanks)
  · cases h with
    | plain hreturn _ => exact absurd (List.mem_append_right l List.mem_cons_self) hreturn
    | gap hgap =>
      have hl : IsGapLine l := hgap.of_append (by decide)
      exact .gap ((hl.pad hblanks).pad (List.forall_mem_singleton.mpr (by decide)))

/-- The kinds of the tokens in rows, row by row.  Rows without tokens may be left out. -/
inductive Rows : List (List Char) → List (List Token.Kind) → Prop
  | nil : Rows [] []
  | skip {l : List Char} {ls : List (List Char)} {blocks : List (List Token.Kind)} :
      RowKinds l [] → Rows ls blocks → Rows (l :: ls) blocks
  | cons {l : List Char} {ls : List (List Char)} {kinds : List Token.Kind}
      {blocks : List (List Token.Kind)} : RowKinds l kinds → Rows ls blocks →
      Rows (l :: ls) (kinds :: blocks)

namespace Rows

variable {front ls ls' : List (List Char)} {l l' : List Char} {blocks : List (List Token.Kind)}

/-- Rows may be replaced behind others. -/
theorem congr_behind (h : Rows (front ++ ls) blocks)
    (hls : ∀ blocks, Rows ls blocks → Rows ls' blocks) : Rows (front ++ ls') blocks := by
  induction front generalizing blocks with
  | nil => exact hls blocks h
  | cons l front ih =>
    cases h with
    | skip hl hrest => exact .skip hl (ih hrest)
    | cons hl hrest => exact .cons hl (ih hrest)

theorem replace (h : Rows (front ++ l :: ls) blocks)
    (hl : ∀ kinds, RowKinds l kinds → RowKinds l' kinds) : Rows (front ++ l' :: ls) blocks := by
  refine h.congr_behind fun blocks hrows => ?_
  cases hrows with
  | skip hkinds hrest => exact .skip (hl _ hkinds) hrest
  | cons hkinds hrest => exact .cons (hl _ hkinds) hrest

theorem insert (h : Rows (front ++ ls) blocks) (hl : IsGapLine l) : Rows (front ++ l :: ls) blocks :=
  h.congr_behind fun _ hrows => .skip (.gap hl) hrows

/-- **An edit keeps the kinds of the rows.** -/
theorem edit {text text' : List Char} (h : Rows (rows text) blocks) (hedit : LayoutEdit text text') :
    Rows (rows text') blocks := by
  cases hedit with
  | @insertLine before after line hbefore hfeed hgap =>
    obtain ⟨front, hfront⟩ := hbefore.exists_rows
    rw [List.append_assoc, hfront, rows_feed hfeed]
    rw [hfront] at h
    exact h.insert hgap
  | @addLine _ line htext hfeed hgap =>
    obtain ⟨front, hfront⟩ := htext.exists_rows
    rw [hfront, rows_eq_singleton hfeed]
    rw [← List.append_nil text, hfront] at h
    -- the row behind the last line feed was empty, and the new line takes its place
    refine h.replace ?_
    rintro kinds (⟨_, hkinds⟩ | _)
    · cases hkinds
      exact .gap hgap
    · exact .gap hgap
  | @breakLine _ line hfeed hgap =>
    have hrows : rows (text ++ '\n' :: line) = rows text ++ [line] := by
      rw [rows, List.splitOn_append_cons_self, List.splitOn_eq_singleton hfeed]
      rfl
    rw [hrows]
    rw [← List.append_nil (rows text)] at h
    exact h.insert hgap
  | @indent before after blanks hbefore hblanks hhead =>
    obtain ⟨front, hfront⟩ := hbefore.exists_rows
    have hfeed : '\n' ∉ blanks := fun hmem => (hblanks _ hmem).2.1 rfl
    obtain ⟨l, rest, hafter, hblanks', hl⟩ := exists_rows_append hfeed after
    rw [List.append_assoc, hfront, hblanks']
    rw [hfront, hafter] at h
    exact h.replace fun kinds hkinds => hkinds.indent hblanks fun c hc => hhead c (hl c hc)
  | @pad before after pad hafter hpad =>
    obtain ⟨start, l, rfl, hstart, hl⟩ := exists_last_line before
    obtain ⟨front, hfront⟩ := hstart.exists_rows
    obtain ⟨ending, rest, hending, hrest⟩ := hafter.exists_rows
    have hl' : '\n' ∉ l ++ pad := by
      intro hmem
      rcases List.mem_append.mp hmem with hmem | hmem
      · exact hl hmem
      · cases hpad _ hmem
    rw [List.append_assoc start l pad, List.append_assoc, hfront, hrest _ hl']
    rw [List.append_assoc, hfront, hrest l hl] at h
    exact h.replace fun kinds hkinds => .pad hending hkinds hpad

/-- So does any number of edits. -/
theorem edits {text text' : List Char} (h : Rows (rows text) blocks)
    (hedits : ReflTransGen LayoutEdit text text') : Rows (rows text') blocks := by
  induction hedits with
  | refl => exact h
  | tail _ hedit ih => exact ih.edit hedit

end Rows

/-! ### From rows to tokens -/

/-- The line that a row becomes has the tokens of the row. -/
theorem RowKinds.exists_line {l : List Char} {kinds : List Token.Kind} (h : RowKinds l kinds)
    (hfeed : '\n' ∉ l) (rest : List Char) :
    ∃ l', lines (l ++ '\n' :: rest) = l' :: lines rest ∧ LineKinds true l' kinds := by
  by_cases hreturn : l.getLast? = some '\r'
  · -- the carriage return goes to the line end
    obtain ⟨l', rfl⟩ := List.getLast?_eq_some_iff.mp hreturn
    have hfeed' : '\n' ∉ l' := fun hmem => hfeed (List.mem_append_left _ hmem)
    refine ⟨l', ?_, ?_⟩
    · rw [List.append_assoc]
      exact lines_return hfeed' rest
    · cases h with
      | plain hnone _ => exact absurd (List.mem_append_right l' List.mem_cons_self) hnone
      | gap hgap => exact (hgap.of_append (by decide)).lineKinds
  · have hline : IsLineText l := ⟨hfeed, fun c hc heq => hreturn (heq ▸ hc)⟩
    exact ⟨l, lines_line hline rest, h.lineKinds⟩

/-- Tokens in blocks, each of which stands on a line of its own, from line `n` on. -/
inductive Grouped : Nat → List (List Token.Kind) → List Token → Prop
  | nil (n : Nat) : Grouped n [] []
  | cons {n line : Nat} {ts us : List Token} {kinds : List Token.Kind}
      {blocks : List (List Token.Kind)} : n ≤ line → (∀ t ∈ ts, t.line = line) →
      ts.map (·.kind) = kinds → Grouped (line + 1) blocks us →
      Grouped n (kinds :: blocks) (ts ++ us)

theorem Grouped.mono {n m : Nat} {blocks : List (List Token.Kind)} {ts : List Token}
    (h : Grouped n blocks ts) (hle : m ≤ n) : Grouped m blocks ts := by
  cases h with
  | nil => exact .nil m
  | cons hline hts hkinds hrest => exact .cons (hle.trans hline) hts hkinds hrest

/-- Tokens of the same kinds on two lines correspond. -/
theorem tokensCorrespond_of_lines {R : Position → Position → Prop} {line line' : Nat}
    (hR : ∀ p q : Position, p.line = line → q.line = line' → R p q) {ts ts' : List Token}
    (hts : ∀ t ∈ ts, t.line = line) (hts' : ∀ t ∈ ts', t.line = line')
    (hkinds : ts.map (·.kind) = ts'.map (·.kind)) : TokensCorrespond R ts ts' := by
  induction ts generalizing ts' with
  | nil =>
    obtain rfl := List.map_eq_nil_iff.mp hkinds.symm
    exact .nil
  | cons t ts ih =>
    cases ts' with
    | nil => cases hkinds
    | cons t' ts' =>
      obtain ⟨kind, p⟩ := t
      obtain ⟨kind', p'⟩ := t'
      rw [List.forall_mem_cons] at hts hts'
      obtain ⟨hkind, hrest⟩ := List.cons.inj hkinds
      obtain rfl : kind = kind' := hkind
      exact .cons ⟨hR p p' hts.1 hts'.1⟩ (ih hts.2 hts'.2 hrest)

/-- **Tokens that are grouped alike correspond.** -/
theorem Grouped.exists_corresponds {n n' : Nat} {blocks : List (List Token.Kind)}
    {ts ts' : List Token} (h : Grouped n blocks ts) (h' : Grouped n' blocks ts') :
    ∃ R, KeepsLines R ∧ (∀ p q, R p q → n ≤ p.line ∧ n' ≤ q.line) ∧ TokensCorrespond R ts ts' := by
  induction h generalizing n' ts' with
  | nil n =>
    cases h'
    exact ⟨fun _ _ => False, fun _ _ _ _ h => h.elim, fun _ _ h => h.elim, .nil⟩
  | @cons n line ts us kinds blocks hline hts hkinds hrest ih =>
    obtain _ | ⟨hline', hts', hkinds', hrest'⟩ := h'
    rename_i line' ts' us'
    obtain ⟨R, hR, hbounds, hus⟩ := ih hrest'
    -- the first block on both sides, or what relates the others, which stand further down
    refine ⟨fun p q => p.line = line ∧ q.line = line' ∨ R p q, ?_, ?_, ?_⟩
    · rintro p p' q q' (⟨hp, hp'⟩ | hp) (⟨hq, hq'⟩ | hq)
      · exact ⟨fun _ => hp'.trans hq'.symm, fun _ => hp.trans hq.symm⟩
      · have := hbounds q q' hq
        constructor <;> omega
      · have := hbounds p p' hp
        constructor <;> omega
      · exact hR hp hq
    · rintro p q (⟨hp, hq⟩ | hpq)
      · omega
      · have := hbounds p q hpq
        omega
    · refine List.rel_append ?_ ?_
      · exact tokensCorrespond_of_lines (fun p q hp hq => .inl ⟨hp, hq⟩) hts hts'
          (hkinds.trans hkinds'.symm)
      · exact hus.imp fun t t' ⟨hp⟩ => ⟨.inr hp⟩

theorem Lexer.LineKinds.exists_tokens {l : List Char} {kinds : List Token.Kind}
    (h : LineKinds true l kinds) (line : Nat) :
    ∃ ts, lineTokens line 0 l = .ok ts ∧ ts.map (·.kind) = kinds ∧ ∀ t ∈ ts, t.line = line := by
  obtain ⟨ts, hts, hkinds⟩ := h.exists_lineTokens (show ((0 : Nat) == 0) = true from rfl) line
  exact ⟨ts, hts, hkinds, line_of_mem_lineTokens hts⟩

/-- A text is its first row, or it goes on behind a line feed. -/
theorem Text.rows_eq_cons {text l : List Char} {ls : List (List Char)} (h : rows text = l :: ls) :
    '\n' ∉ l ∧ (text = l ∧ ls = [] ∨ ∃ rest, text = l ++ '\n' :: rest ∧ rows rest = ls) := by
  by_cases hmem : '\n' ∈ text
  · obtain ⟨l', rest, rfl, hl'⟩ := List.eq_append_cons_of_mem hmem
    rw [rows_feed hl'] at h
    cases h
    exact ⟨hl', .inr ⟨rest, rfl, rfl⟩⟩
  · rw [rows_eq_singleton hmem] at h
    cases h
    exact ⟨hmem, .inl ⟨rfl, rfl⟩⟩

/-- The tokens of a text are those of its first row and those of the others. -/
theorem RowKinds.exists_tokens {l : List Char} {kinds : List Token.Kind} (h : RowKinds l kinds)
    {ls : List (List Char)} {blocks : List (List Token.Kind)} (hls : Rows ls blocks) {n : Nat}
    (hrest : ∀ rest, rows rest = ls →
      ∃ us, linesTokens (n + 1) (lines rest) = .ok us ∧ Grouped (n + 1) blocks us)
    {text : List Char} (htext : rows text = l :: ls) :
    ∃ ts us, linesTokens n (lines text) = .ok (ts ++ us) ∧ ts.map (·.kind) = kinds ∧
      (∀ t ∈ ts, t.line = n) ∧ Grouped (n + 1) blocks us := by
  obtain ⟨hfeed, ⟨rfl, rfl⟩ | ⟨rest, rfl, hrows⟩⟩ := rows_eq_cons htext
  · cases hls
    obtain ⟨ts, hts, hkinds, hline⟩ := h.lineKinds.exists_tokens n
    refine ⟨ts, [], ?_, hkinds, hline, .nil _⟩
    by_cases hnil : text = []
    · -- an empty last row is no line
      subst hnil
      rw [lineTokens] at hts
      cases hts
      rfl
    · rw [lines_eq_singleton hfeed hnil, linesTokens_cons, hts]
      rfl
  · obtain ⟨l', hlines, hkinds⟩ := h.exists_line hfeed rest
    obtain ⟨ts, hts, hkinds, hline⟩ := hkinds.exists_tokens n
    obtain ⟨us, hus, hgrouped⟩ := hrest rest hrows
    refine ⟨ts, us, ?_, hkinds, hline, hgrouped⟩
    rw [hlines, linesTokens_cons, hts, Except.bind, hus]
    rfl

/-- **The tokens of a text are grouped by its rows.** -/
theorem Rows.exists_tokens {ls : List (List Char)} {blocks : List (List Token.Kind)}
    (h : Rows ls blocks) {text : List Char} (htext : rows text = ls) (n : Nat) :
    ∃ ts, linesTokens n (lines text) = .ok ts ∧ Grouped n blocks ts := by
  induction h generalizing text n with
  | nil => exact absurd htext (List.splitOn_ne_nil _ _)
  | skip hl hls ih =>
    obtain ⟨ts, us, htokens, hkinds, -, hgrouped⟩ :=
      hl.exists_tokens hls (fun rest hrows => ih hrows (n + 1)) htext
    obtain rfl := List.map_eq_nil_iff.mp hkinds
    exact ⟨us, htokens, hgrouped.mono (Nat.le_succ n)⟩
  | cons hl hls ih =>
    obtain ⟨ts, us, htokens, hkinds, hline, hgrouped⟩ :=
      hl.exists_tokens hls (fun rest hrows => ih hrows (n + 1)) htext
    exact ⟨ts ++ us, htokens, .cons (Nat.le_refl n) hline hkinds hgrouped⟩

/-- A text without carriage returns that is cut into tokens has rows with kinds. -/
theorem exists_rows_of_linesTokens {ls : List (List Char)} {text : List Char}
    (htext : rows text = ls) (hreturn : '\r' ∉ text) {n : Nat} {ts : List Token}
    (h : linesTokens n (lines text) = .ok ts) : ∃ blocks, Rows ls blocks := by
  induction ls generalizing text n ts with
  | nil => exact ⟨[], .nil⟩
  | cons l ls ih =>
    obtain ⟨hfeed, ⟨rfl, rfl⟩ | ⟨rest, rfl, hrows⟩⟩ := rows_eq_cons htext
    · by_cases hnil : text = []
      · subst hnil
        exact ⟨[[]], .cons (.plain hreturn (.nil true)) .nil⟩
      · rw [lines_eq_singleton hfeed hnil] at h
        obtain ⟨first, -, hfirst, -, -⟩ := exists_of_linesTokens_cons h
        exact ⟨[_], .cons (.plain hreturn (lineKinds_of_lineTokens hfirst)) .nil⟩
    · rw [List.mem_append, not_or] at hreturn
      obtain ⟨hreturn, hreturn'⟩ := hreturn
      have hline : IsLineText l :=
        ⟨hfeed, fun c hc heq => hreturn (heq ▸ List.mem_of_getLast? hc)⟩
      rw [lines_line hline] at h
      obtain ⟨first, ts', hfirst, hts', -⟩ := exists_of_linesTokens_cons h
      obtain ⟨blocks, hblocks⟩ :=
        ih hrows (fun hmem => hreturn' (List.mem_cons_of_mem _ hmem)) hts'
      exact ⟨_ :: blocks, .cons (.plain hreturn (lineKinds_of_lineTokens hfirst)) hblocks⟩

/-- A text whose rows have kinds does not start with a byte order mark. -/
theorem Rows.head?_ne_byteOrderMark {text : List Char} {blocks : List (List Token.Kind)}
    (h : Rows (rows text) blocks) : text.head? ≠ some byteOrderMark := by
  have hfirst : ∀ l ls, rows text = l :: ls → l.head? ≠ some byteOrderMark := by
    intro l ls hrows
    rw [hrows] at h
    cases h with
    | skip hl _ => exact hl.lineKinds.head?_ne_byteOrderMark
    | cons hl _ => exact hl.lineKinds.head?_ne_byteOrderMark
  obtain ⟨l, ls, hrows⟩ := List.exists_cons_of_ne_nil (List.splitOn_ne_nil '\n' text)
  have hl := hfirst l ls hrows
  obtain ⟨-, ⟨rfl, -⟩ | ⟨rest, rfl, -⟩⟩ := rows_eq_cons hrows
  · exact hl
  · cases l with
    | nil => exact fun heq => absurd (Option.some.inj heq) (by decide)
    | cons c l => exact hl

/-! ### The theorem -/

/-- **Edits of the layout move tokens and do nothing else.** -/
theorem exists_tokens_of_layoutEdits {source source' : String} {ts : List Token}
    (hreturn : '\r' ∉ source.toList) (hmark : source.toList.head? ≠ some byteOrderMark)
    (hts : tokenize source = .ok ts)
    (hedits : ReflTransGen LayoutEdit source.toList source'.toList) :
    ∃ ts' R, tokenize source' = .ok ts' ∧ KeepsLines R ∧ TokensCorrespond R ts ts' := by
  have hlines : linesTokens 0 (lines source.toList) = .ok ts := by
    rw [tokenize, scriptLines_eq_lines hmark] at hts
    exact hts
  obtain ⟨blocks, hrows⟩ := exists_rows_of_linesTokens rfl hreturn hlines
  have hrows' : Rows (rows source'.toList) blocks := hrows.edits hedits
  obtain ⟨us, hus, hgrouped⟩ := hrows.exists_tokens rfl 0
  obtain ⟨ts', hts', hgrouped'⟩ := hrows'.exists_tokens rfl 0
  rw [hlines] at hus
  cases hus
  obtain ⟨R, hR, -, hcorrespond⟩ := hgrouped.exists_corresponds hgrouped'
  refine ⟨ts', R, ?_, hR, hcorrespond⟩
  rw [tokenize, scriptLines_eq_lines hrows'.head?_ne_byteOrderMark]
  exact hts'

/-- **Layout does not change meaning.**  Whatever is added to the layout of a script, it is read as
the same segments, and compiled to the same program at every width. -/
theorem readScript_of_layoutEdits {name source source' : String} {segments : List Segment}
    (hreturn : '\r' ∉ source.toList) (hmark : source.toList.head? ≠ some byteOrderMark)
    (hread : readScript name source = .ok segments)
    (hedits : ReflTransGen LayoutEdit source.toList source'.toList) :
    readScript name source' = .ok segments ∧ ∀ width, ∃ program,
      compile width name source = .ok program ∧ compile width name source' = .ok program := by
  obtain ⟨ts, hts, hparse⟩ := readScript_eq_ok_iff.mp hread
  obtain ⟨ts', R, hts', hR, hcorrespond⟩ :=
    exists_tokens_of_layoutEdits hreturn hmark hts hedits
  have hparse' : parse ts' = .ok segments := by
    have hresults := parse_corresponds hR hcorrespond
    rw [hparse] at hresults
    generalize parse ts' = result at hresults
    cases hresults with
    | ok heq => rw [heq]
  have hread' : readScript name source' = .ok segments :=
    readScript_eq_ok_iff.mpr ⟨ts', hts', hparse'⟩
  refine ⟨hread', fun width => ?_⟩
  obtain ⟨program, hprogram⟩ := exists_generate width segments
  refine ⟨program, ?_, ?_⟩
  · rw [compile_eq, hread, Except.bind, hprogram]
    rfl
  · rw [compile_eq, hread', Except.bind, hprogram]
    rfl

/-- A script as it is printed. -/
def denseSource : String :=
  printLines [[.header "Cave"], [.divert "Hall"]]

/-- The same script with a comment, a space at the end of a line and an indented line. -/
def airySource : String :=
  "// the cave\n=== Cave === \n\t-> Hall\n"

theorem layoutEdits_denseSource : ReflTransGen LayoutEdit denseSource.toList airySource.toList := by
  have hcomment : IsGapLine "// the cave".toList :=
    .inr ⟨[], " the cave".toList, List.forall_mem_nil _, by decide⟩
  have hinsert := @LayoutEdit.insertLine [] denseSource.toList "// the cave".toList
    atLineStart_nil (by decide) hcomment
  have hpad := @LayoutEdit.pad "// the cave\n=== Cave ===".toList "\n-> Hall\n".toList [' ']
    (.inr (.inl ⟨"-> Hall\n".toList, by decide⟩)) (List.forall_mem_singleton.mpr rfl)
  have hlast : "// the cave\n=== Cave === \n".toList.getLast? = some '\n' := by decide
  have hhead : "-> Hall\n".toList.head? = some '-' := by decide
  have hindent := @LayoutEdit.indent "// the cave\n=== Cave === \n".toList "-> Hall\n".toList ['\t']
    (fun c hc => (Option.some.inj (hlast.symm.trans hc)).symm)
    (List.forall_mem_singleton.mpr (by decide))
    (fun c hc => Option.some.inj (hhead.symm.trans hc) ▸ (by decide))
  exact ((ReflTransGen.single hinsert).tail hpad).tail hindent

theorem readScript_airySource :
    '\r' ∉ denseSource.toList ∧ denseSource.toList.head? ≠ some byteOrderMark ∧
      readScript "cave" denseSource = .ok [⟨"Cave", [.divert "Hall"]⟩] ∧
      readScript "cave" airySource = .ok [⟨"Cave", [.divert "Hall"]⟩] ∧
      ∀ width, ∃ program, compile width "cave" denseSource = .ok program ∧
        compile width "cave" airySource = .ok program := by
  have hreturn : '\r' ∉ denseSource.toList := by decide
  have hmark : denseSource.toList.head? ≠ some byteOrderMark := by decide
  have hread : readScript "cave" denseSource = .ok [⟨"Cave", [.divert "Hall"]⟩] := by
    have hname : IsSegmentName "Cave" := by decide
    have hhall : IsTarget "Hall" := by decide
    have hparse : parse [⟨.header "Cave", ⟨0, 0⟩⟩, ⟨.divert "Hall", ⟨1, 0⟩⟩] =
        .ok [⟨"Cave", [.divert "Hall"]⟩] := by cbv
    refine readScript_eq_ok_iff.mpr ⟨_, tokenize_printLines ?_, hparse⟩
    simp [LineFits, Token.Kind.WellFormed, Token.Kind.Stands, hname, hhall]
  exact ⟨hreturn, hmark, hread,
    readScript_of_layoutEdits hreturn hmark hread layoutEdits_denseSource⟩

end Dialogue
