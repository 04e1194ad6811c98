import Dialogue.Compile
import Dialogue.Proofs.Run

/-!
# The parser accepts its grammar

`parse_eq_ok_iff_script`: tokens are parsed to segments exactly if they derive them in the grammar.

The parser has a stack where the grammar has nesting.  Both directions rest on what the tokens of a
phrase do to the stack, whatever lies below: a block extends what is being collected
(`Grammar.Block.reaches`), and the tokens behind an opened conditional hand it, completed, to the
scopes below it (`Grammar.Conditional.reaches`).  These follow the derivation.  Conversely a run
that ends with no open scope reads a block from every point on (`exists_block`), by induction on
the number of tokens: an `if` is followed by a block, what stops that block has to continue the
conditional, and behind the conditional the outer block goes on.
-/

namespace Dialogue

open Grammar Relation

variable {stop : Position}

/-! ### What phrases start with -/

theorem Grammar.Stmt.exists_head {ts rest : List Token} {stmt : Statement}
    (h : Stmt ts stmt rest) :
    ∃ t ts', ts = t :: ts' ∧ ∀ expr, t.kind ≠ .condition expr := by
  cases h with
  | simple h => cases h <;> exact ⟨_, _, rfl, nofun⟩
  | conditional h => exact ⟨_, _, rfl, nofun⟩

theorem Grammar.Block.stops_condition {ts rest : List Token} {stmts : List Statement} {line : Nat}
    (h : Block ts stmts rest) (hrest : Stops (ConditionOn line) rest) :
    Stops (ConditionOn line) ts := by
  cases h with
  | nil => exact hrest
  | cons hstmt _ =>
    obtain ⟨t, ts', rfl, hkind⟩ := hstmt.exists_head
    refine stops_cons.mpr ?_
    rintro ⟨⟨expr, hexpr⟩, -⟩
    exact hkind expr hexpr

theorem Grammar.ConditionalTail.atBranchEnd {ts rest : List Token} {second : List Statement}
    (h : ConditionalTail ts second rest) : AtBranchEnd ts := by
  cases h with
  | elif _ => exact ⟨_, rfl, .inl rfl⟩
  | else_ _ => exact ⟨_, rfl, .inr (.inl rfl)⟩
  | endif => exact ⟨_, rfl, .inr (.inr rfl)⟩

theorem AtBranchEnd.stops_condition {line : Nat} {ts : List Token} (h : AtBranchEnd ts) :
    Stops (ConditionOn line) ts := by
  refine h.stops ?_
  rintro ⟨kind, p⟩ hend ⟨⟨expr, rfl⟩, -⟩
  simp [EndsBranch] at hend

/-! ### What phrases do to the stack -/

theorem reaches_clause {st st' : State} {t : Token} {ts rest : List Token} {clause : Clause}
    {events : List Event} (h : ClauseAt (t :: ts) clause rest)
    (hstep : Steps t.position st clause st' events) : Reaches stop (st, t :: ts) (st', rest) :=
  .single (.clause (takeClause_yields_iff.mpr h) (step_eq_ok_iff.mpr hstep))

variable (stop) in
mutual

/-- **A block extends what is being collected.** -/
theorem Grammar.Block.reaches : {ts rest : List Token} → {stmts : List Statement} →
    Block ts stmts rest → (st : State) → st.Collecting →
      Reaches stop (st, ts) (st.extend stmts, rest)
  | _, _, _, .nil ts, st, _ => by
    rw [st.extend_nil]
    exact .refl
  | _, _, _, @Block.cons _ _ _ stmt stmts hstmt hblock, st, hst => by
    have hrest := hblock.reaches (st.extend [stmt]) (hst.extend [stmt])
    rw [st.extend_extend] at hrest
    exact (hstmt.reaches st hst).trans hrest

/-- A statement extends what is being collected. -/
theorem Grammar.Stmt.reaches : {ts rest : List Token} → {stmt : Statement} →
    Stmt ts stmt rest → (st : State) → st.Collecting →
      Reaches stop (st, ts) (st.extend [stmt], rest)
  | _, _, stmt, .simple hsimple, st, hst => by
    obtain ⟨t, ts, rfl, -⟩ := (Stmt.simple hsimple).exists_head
    exact reaches_clause (.statement hsimple) (.statement hst)
  | _, _, stmt, @Stmt.conditional p _ _ _ hcond, st, hst => by
    obtain ⟨exprs, ts', hne, hconds, hstop, hreach⟩ := hcond.reaches
    rw [← hst.hand stmt]
    exact (reaches_clause (.opening hconds hstop) (.opening hne)).trans (hreach st .if_ p)

/-- **Behind an opened conditional, its tokens hand it to what lies below.** -/
theorem Grammar.Conditional.reaches : {line : Nat} → {ts rest : List Token} → {stmt : Statement} →
    Conditional line ts stmt rest → ∃ exprs ts', exprs ≠ [] ∧ Conditions line ts exprs ts' ∧
      Stops (ConditionOn line) ts' ∧ ∀ (st : State) (word : Keyword) (p : Position),
        Reaches stop ({ st with scopes := .start word p exprs :: st.scopes }, ts')
          (st.hand stmt, rest)
  | _, _, _, _, @Conditional.intro _ _ _ _ _ exprs first _ hconds hne hblock htail => by
    refine ⟨exprs, _, hne, hconds, hblock.stops_condition htail.atBranchEnd.stops_condition, ?_⟩
    intro st word p
    have hopen : { st with scopes := Scope.start word p exprs :: st.scopes }.Collecting := by
      rintro _ ⟨⟩
      nofun
    have hsecond := htail.reaches st { Scope.start word p exprs with consequent := first } rfl rfl
    exact (hblock.reaches _ hopen).trans hsecond

/-- What follows the first block of the innermost conditional hands it to what lies below. -/
theorem Grammar.ConditionalTail.reaches : {ts rest : List Token} → {second : List Statement} →
    ConditionalTail ts second rest → (st : State) → (s : Scope) →
      s.phase = .consequent → s.alternate = [] →
      Reaches stop ({ st with scopes := s :: st.scopes }, ts)
        (st.hand (.conditional s.conditions s.consequent second), rest)
  | _, _, _, @ConditionalTail.elif p _ _ stmt hcond, st, s, hphase, halt => by
    obtain ⟨exprs, ts', hne, hconds, hstop, hreach⟩ := hcond.reaches
    have hhand := hreach { st with scopes := { s with phase := .closed } :: st.scopes } .elif p
    have hsole : (Scope.pushAlternate { s with phase := .closed } stmt).conditional =
        .conditional s.conditions s.consequent [stmt] := by
      simp [Scope.conditional, Scope.pushAlternate, halt]
    rw [State.hand_closed rfl, hsole] at hhand
    exact (reaches_clause (.chaining hconds hstop) (.chaining hphase hne)).trans hhand
  | _, _, _, @ConditionalTail.else_ p q _ _ second hblock, st, s, hphase, halt => by
    have hopen : { st with scopes := { s with phase := .alternate } :: st.scopes }.Collecting := by
      rintro _ ⟨⟩
      nofun
    have hextend : { st with scopes := { s with phase := .alternate } :: st.scopes }.extend second =
        { st with scopes := { s with phase := .alternate, alternate := second } :: st.scopes } := by
      simp [State.extend, Scope.extend, halt]
    have hsecond := hblock.reaches _ hopen
    rw [hextend] at hsecond
    exact ((reaches_clause .otherwise (.otherwise hphase)).trans hsecond).trans
      (reaches_clause .closing (.closing nofun))
  | _, _, _, .endif, st, s, hphase, halt => by
    have hopen : s.phase ≠ .closed := by
      rw [hphase]
      nofun
    rw [← halt]
    exact reaches_clause .closing (.closing hopen)

end

/-- Headers and their blocks add segments, each behind the one before. -/
theorem Grammar.Headed.reaches (stop : Position) {ts : List Token} {segments : List Segment}
    (h : Headed ts segments) {st : State} (hst : st.scopes = []) :
    ∃ fin, Reaches stop (st, ts) (fin, []) ∧ fin.scopes = [] ∧
      fin.earlier ++ [fin.current] = st.earlier ++ st.current :: segments := by
  induction h generalizing st with
  | nil => exact ⟨st, .refl, hst, rfl⟩
  | @cons name p ts rest stmts segments hblock _ ih =>
    obtain ⟨earlier, current, _⟩ := st
    obtain rfl : _ = [] := hst
    let st' : State := ⟨earlier ++ [current], ⟨name, []⟩, []⟩
    have hbody := hblock.reaches stop st' nofun
    obtain ⟨fin, hreach, hscopes, hsegments⟩ := @ih (st'.extend stmts) rfl
    refine ⟨fin, ((reaches_clause .header .header).trans hbody).trans hreach, hscopes, ?_⟩
    rw [hsegments]
    simp [st', State.extend]

/-- Every script of the grammar is parsed to the segments that it denotes. -/
theorem Grammar.Script.parse {ts : List Token} {segments : List Segment} (h : Script ts segments) :
    parse ts = .ok segments := by
  obtain ⟨lead, rest, headed, hblock, hheaded, rfl⟩ := h
  have hlead := hblock.reaches (lastPosition ts) .initial nofun
  have hscopes : (State.initial.extend lead).scopes = [] := rfl
  obtain ⟨fin, hreach, hfin, hsegments⟩ := hheaded.reaches (lastPosition ts) hscopes
  rw [parse_eq, run_eq_ok_iff.mpr (hlead.trans hreach)]
  show fin.finish = _
  simp only [State.finish, State.checkClosed, hfin, hsegments]
  -- the lead is the first segment, and its name is empty
  show Except.ok (if lead.isEmpty then headed else ⟨"", [] ++ lead⟩ :: headed) = _
  rw [List.nil_append]

/-! ### What a run reads -/

/-- The tokens end, or go on with a header or a keyword that ends a branch. -/
def AtBlockEnd (ts : List Token) : Prop :=
  ∀ t ∈ ts.head?, EndsBranch t ∨ ∃ name, t.kind = .header name

theorem Grammar.Simple.not_atBlockEnd {ts rest : List Token} {stmt : Statement}
    (h : Simple ts stmt rest) : ¬ AtBlockEnd ts := by
  cases h <;> simp [AtBlockEnd, EndsBranch]

/-- A successful run, taken apart at its first clause. -/
theorem exists_clause_of_run {st fin : State} {t : Token} {ts : List Token}
    (h : (st.run stop (t :: ts)).result = .ok fin) :
    ∃ clause rest next events, ClauseAt (t :: ts) clause rest ∧ rest.length ≤ ts.length ∧
      Steps t.position st clause next events ∧ (next.run stop rest).result = .ok fin := by
  rw [State.run] at h
  split at h
  · cases h
  · rename_i clause hclause
    split at h
    · cases h
    · rename_i next events hstep
      exact ⟨clause.value, clause.rest, next, events, takeClause_sound hclause, clause.length_le,
        step_eq_ok_iff.mp hstep, h⟩

/-- Where a block ends inside the last branch of a conditional, only an `endif` can follow. -/
theorem exists_endif_of_run (st : State) {fin : State} {s : Scope} {ts : List Token}
    (hfin : fin.scopes = []) (hphase : s.phase = .alternate) (hend : AtBlockEnd ts)
    (hrun : ({ st with scopes := s :: st.scopes }.run stop ts).result = .ok fin) :
    ∃ q rest, ts = ⟨.keyword .endif, q⟩ :: rest := by
  cases ts with
  | nil =>
    rw [State.run] at hrun
    cases hrun
    cases hfin
  | cons t ts =>
    obtain ⟨clause, rest, next, events, hclause, -, hstep, -⟩ := exists_clause_of_run hrun
    cases hclause with
    | header => cases hstep
    | opening => simp [AtBlockEnd, EndsBranch] at hend
    | chaining =>
      cases hstep with
      | chaining hphase' _ => rw [hphase] at hphase'; cases hphase'
    | otherwise =>
      cases hstep with
      | otherwise hphase' => rw [hphase] at hphase'; cases hphase'
    | closing => exact ⟨_, _, rfl⟩
    | statement hsimple => exact absurd hend hsimple.not_atBlockEnd

/-- From every point with fewer than `n` tokens left, a run that ends in `fin` reads a block. -/
def ReadsBlocks (stop : Position) (fin : State) (n : Nat) : Prop :=
  ∀ (st : State) (ts : List Token), ts.length < n → st.Collecting →
    (st.run stop ts).result = .ok fin → ∃ stmts rest, Block ts stmts rest ∧ AtBlockEnd rest

/-- From every point with fewer than `n` tokens left where a block ends inside a conditional, a run
that ends in `fin` reads the rest of that conditional. -/
def ReadsTails (stop : Position) (fin : State) (n : Nat) : Prop :=
  ∀ (st : State) (s : Scope) (ts : List Token), ts.length < n →
    s.phase = .consequent → AtBlockEnd ts →
    ({ st with scopes := s :: st.scopes }.run stop ts).result = .ok fin →
    ∃ second rest, ConditionalTail ts second rest

/-- Behind an opened conditional, a run reads the conditional. -/
theorem ReadsBlocks.exists_conditional {fin : State} {n : Nat} (hblocks : ReadsBlocks stop fin n)
    (htails : ReadsTails stop fin n) (st : State) {word : Keyword} {p : Position}
    {exprs : List String} {ts ts' : List Token} (hconds : Conditions p.line ts exprs ts')
    (hne : exprs ≠ []) (hn : ts'.length < n)
    (hrun : ({ st with scopes := .start word p exprs :: st.scopes }.run stop ts').result =
      .ok fin) :
    ∃ stmt rest, Conditional p.line ts stmt rest ∧ rest.length ≤ ts'.length := by
  have hopen : { st with scopes := Scope.start word p exprs :: st.scopes }.Collecting := by
    rintro _ ⟨⟩
    nofun
  obtain ⟨first, ts'', hblock, hend⟩ := hblocks _ ts' hn hopen hrun
  have hreach := hblock.reaches stop _ hopen
  rw [run_result_of_reaches hreach] at hrun
  let s : Scope := { Scope.start word p exprs with consequent := first }
  obtain ⟨second, rest, htail⟩ := htails st s ts'' (Nat.lt_of_le_of_lt hreach.length_le hn) rfl
    hend hrun
  have hle := (htail.reaches stop st s rfl rfl).length_le
  exact ⟨_, rest, .intro hconds hne hblock htail, Nat.le_trans hle hreach.length_le⟩

theorem ReadsBlocks.succ {fin : State} {n : Nat} (hblocks : ReadsBlocks stop fin n)
    (htails : ReadsTails stop fin n) : ReadsBlocks stop fin (n + 1) := by
  intro st ts hn hst hrun
  cases ts with
  | nil => exact ⟨[], [], .nil _, nofun⟩
  | cons t ts =>
    -- a statement goes in front of the block that follows it
    have hcons {stmt : Statement} {rest : List Token} (hstmt : Stmt (t :: ts) stmt rest)
        (hlt : rest.length < n) :
        ∃ stmts rest', Block (t :: ts) stmts rest' ∧ AtBlockEnd rest' := by
      rw [run_result_of_reaches (hstmt.reaches stop st hst)] at hrun
      obtain ⟨stmts, rest', hblock, hend⟩ := hblocks _ rest hlt (hst.extend [stmt]) hrun
      exact ⟨stmt :: stmts, rest', .cons hstmt hblock, hend⟩
    obtain ⟨clause, rest, next, events, hclause, hle, hstep, hnext⟩ := exists_clause_of_run hrun
    have hlt : rest.length < n := Nat.lt_of_le_of_lt hle (Nat.lt_of_succ_lt_succ hn)
    cases hclause with
    | header => exact ⟨[], _, .nil _, by rintro _ ⟨⟩; exact .inr ⟨_, rfl⟩⟩
    | opening hconds hstop =>
      cases hstep with
      | @opening earlier current scopes exprs hne =>
        obtain ⟨stmt, rest', hcond, hle'⟩ :=
          hblocks.exists_conditional htails ⟨earlier, current, scopes⟩ hconds hne hlt hnext
        exact hcons (.conditional hcond) (Nat.lt_of_le_of_lt hle' hlt)
    | chaining => exact ⟨[], _, .nil _, by rintro _ ⟨⟩; exact .inl (.inl rfl)⟩
    | otherwise => exact ⟨[], _, .nil _, by rintro _ ⟨⟩; exact .inl (.inr (.inl rfl))⟩
    | closing => exact ⟨[], _, .nil _, by rintro _ ⟨⟩; exact .inl (.inr (.inr rfl))⟩
    | statement hsimple => exact hcons (.simple hsimple) hlt

theorem ReadsTails.succ {fin : State} {n : Nat} (hfin : fin.scopes = [])
    (hblocks : ReadsBlocks stop fin n) (htails : ReadsTails stop fin n) :
    ReadsTails stop fin (n + 1) := by
  intro st s ts hn hphase hend hrun
  cases ts with
  | nil =>
    rw [State.run] at hrun
    cases hrun
    cases hfin
  | cons t ts =>
    obtain ⟨clause, rest, next, events, hclause, hle, hstep, hnext⟩ := exists_clause_of_run hrun
    have hlt : rest.length < n := Nat.lt_of_le_of_lt hle (Nat.lt_of_succ_lt_succ hn)
    cases hclause with
    | header => cases hstep
    | opening hconds hstop => simp [AtBlockEnd, EndsBranch] at hend
    | chaining hconds hstop =>
      cases hstep with
      | chaining _ hne =>
        obtain ⟨stmt, rest', hcond, -⟩ := hblocks.exists_conditional htails
          { st with scopes := { s with phase := .closed } :: st.scopes } hconds hne hlt hnext
        exact ⟨[stmt], rest', .elif hcond⟩
    | otherwise =>
      cases hstep with
      | otherwise _ =>
        have hopen :
            { st with scopes := { s with phase := .alternate } :: st.scopes }.Collecting := by
          rintro _ ⟨⟩
          nofun
        obtain ⟨second, ts', hblock, hend'⟩ := hblocks _ _ hlt hopen hnext
        rw [run_result_of_reaches (hblock.reaches stop _ hopen)] at hnext
        obtain ⟨q, rest', rfl⟩ := exists_endif_of_run st hfin rfl hend' hnext
        exact ⟨second, rest', .else_ hblock⟩
    | closing => exact ⟨[], _, .endif⟩
    | statement hsimple => exact absurd hend hsimple.not_atBlockEnd

/-- **A run that ends with no open scope reads blocks and conditionals all the way.** -/
theorem readsBlocks_and_readsTails {fin : State} (hfin : fin.scopes = []) (n : Nat) :
    ReadsBlocks stop fin n ∧ ReadsTails stop fin n := by
  induction n with
  | zero => exact ⟨fun _ _ hn => absurd hn (Nat.not_lt_zero _),
      fun _ _ _ hn => absurd hn (Nat.not_lt_zero _)⟩
  | succ n ih => exact ⟨ih.1.succ ih.2, ih.2.succ hfin ih.1⟩

theorem exists_block {st fin : State} {ts : List Token} (hfin : fin.scopes = [])
    (hst : st.Collecting) (hrun : (st.run stop ts).result = .ok fin) :
    ∃ stmts rest, Block ts stmts rest ∧ AtBlockEnd rest :=
  (readsBlocks_and_readsTails hfin (ts.length + 1)).1 st ts (Nat.lt_succ_self _) hst hrun

/-- With no open scope, what stops a block is a header or the end, so a run reads segments. -/
theorem exists_headed {fin : State} (hfin : fin.scopes = []) (n : Nat) (st : State)
    (ts : List Token) (hn : ts.length < n) (hst : st.scopes = []) (hend : AtBlockEnd ts)
    (hrun : (st.run stop ts).result = .ok fin) : ∃ segments, Headed ts segments := by
  induction n generalizing st ts with
  | zero => exact absurd hn (Nat.not_lt_zero _)
  | succ n ih =>
    cases ts with
    | nil => exact ⟨[], .nil⟩
    | cons t ts =>
      obtain ⟨clause, rest, next, events, hclause, hle, hstep, hnext⟩ := exists_clause_of_run hrun
      cases hclause with
      | @header name p _ =>
        cases hstep with
        | @header earlier current _ =>
          let st' : State := ⟨earlier ++ [current], ⟨name, []⟩, []⟩
          have hst' : st'.Collecting := State.collecting_of_scopes_eq_nil rfl
          obtain ⟨stmts, rest, hblock, hend'⟩ := exists_block hfin hst' hnext
          have hreach := hblock.reaches stop st' hst'
          rw [run_result_of_reaches hreach] at hnext
          have hlt : rest.length < n :=
            Nat.lt_of_le_of_lt hreach.length_le (Nat.lt_of_succ_lt_succ hn)
          obtain ⟨segments, hheaded⟩ := ih (st'.extend stmts) rest hlt rfl hend' hnext
          exact ⟨⟨name, stmts⟩ :: segments, .cons hblock hheaded⟩
      | opening => simp [AtBlockEnd, EndsBranch] at hend
      | chaining => cases hstep; cases hst
      | otherwise => cases hstep; cases hst
      | closing => cases hstep; cases hst
      | statement hsimple => exact absurd hend hsimple.not_atBlockEnd

/-- Tokens that are parsed are a script of the grammar. -/
theorem exists_script_of_parse {ts : List Token} {segments : List Segment}
    (h : parse ts = .ok segments) : ∃ segments', Script ts segments' := by
  rw [parse_eq] at h
  cases hrun : (State.initial.run (lastPosition ts) ts).result with
  | error e =>
    rw [hrun] at h
    cases h
  | ok fin =>
    rw [hrun] at h
    have hfin : fin.scopes = [] := State.scopes_eq_nil_of_finish h
    have hinit : State.initial.Collecting := State.collecting_of_scopes_eq_nil rfl
    obtain ⟨lead, rest, hblock, hend⟩ := exists_block hfin hinit hrun
    have hreach := hblock.reaches (lastPosition ts) .initial hinit
    rw [run_result_of_reaches hreach] at hrun
    obtain ⟨headed, hheaded⟩ := exists_headed hfin (rest.length + 1) _ rest (Nat.lt_succ_self _)
      rfl hend hrun
    exact ⟨_, lead, rest, headed, hblock, hheaded, rfl⟩

/-- The segments that tokens are parsed to are those that the grammar assigns to them. -/
theorem script_of_parse {ts : List Token} {segments : List Segment}
    (h : parse ts = .ok segments) : Script ts segments := by
  obtain ⟨segments', hscript⟩ := exists_script_of_parse h
  have heq := hscript.parse
  rw [h] at heq
  cases heq
  exact hscript

/-- **The parser accepts exactly the scripts of the grammar, and answers with the segments that the
grammar assigns to them**, whatever the tokens and their positions are. -/
theorem parse_eq_ok_iff_script (ts : List Token) (segments : List Segment) :
    parse ts = .ok segments ↔ Script ts segments :=
  ⟨script_of_parse, Script.parse⟩

theorem result_segmentsLogged (source : String) :
    (segmentsLogged source).result = (tokenize source).bind parse := by
  rw [segmentsLogged, Logged.result_andThen, Logged.result_record]
  rfl

/-- The segments of a script are those of its tokens. -/
theorem readScript_eq_ok_iff {name source : String} {segments : List Segment} :
    readScript name source = .ok segments ↔
      ∃ ts, tokenize source = .ok ts ∧ parse ts = .ok segments := by
  rw [readScript, result_segmentsLogged]
  cases htokens : tokenize source with
  | error e => exact ⟨nofun, nofun⟩
  | ok ts =>
    show diagnosed name (parse ts) = .ok segments ↔ _
    cases hparse : parse ts with
    | error e =>
      refine ⟨nofun, ?_⟩
      rintro ⟨_, ⟨⟩, hok⟩
      rw [hparse] at hok
      cases hok
    | ok segments' =>
      constructor
      · rintro ⟨⟩
        exact ⟨ts, rfl, hparse⟩
      · rintro ⟨_, ⟨⟩, hok⟩
        rw [hparse] at hok
        cases hok
        rfl

end Dialogue
