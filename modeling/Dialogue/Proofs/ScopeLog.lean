import Dialogue.Proofs.Failures

/-!
# The log of a parser run

What the parser records about conditionals, said without its stack.  A conditional that is open is
remembered by its *chain*: the depths that were recorded for its `if` and for the `elif`s behind it,
the latest first.  `Clause.Records` says for every clause what it records and what becomes of the
chains; an `endif` closes all depths of the innermost chain and touches no other one.  `Chronicle`
goes through clause after clause.

A log can be checked on its own by counting up and down (`Event.replay`).  The records of a
chronicle pass the check, and the count is the number of depths in the chains that are open
(`Chronicle.replay`).

The stack of the parser is the list of chains in another form (`Chained`): a scope that is not closed
starts a chain, seen from below, and the closed scopes under it belong to the same one.
`Steps.records` shows that every step follows the rules, and `chronicle_run` that a run does.
-/

namespace Dialogue

open Grammar

/-! ### Counting -/

namespace Event

/-- Counts one record.  Opening and chaining go one up and name the depth that they reach, closing
names the depth that it leaves. -/
def replay (depth : Nat) : Event → Option Nat
  | opened d => if d = depth + 1 then some d else none
  | chained d => if d = depth + 1 then some d else none
  | closed d => if d = depth ∧ 1 ≤ d then some (d - 1) else none
  | _ => some depth

/-- A record about an `if` or an `elif` that is opened. -/
def opens : Event → Bool
  | opened _ => true
  | chained _ => true
  | _ => false

/-- A record about one that is closed. -/
def closes : Event → Bool
  | closed _ => true
  | _ => false

theorem replay_opened (depth : Nat) : replay depth (.opened (depth + 1)) = some (depth + 1) :=
  if_pos rfl

theorem replay_chained (depth : Nat) : replay depth (.chained (depth + 1)) = some (depth + 1) :=
  if_pos rfl

theorem replay_closed (depth : Nat) : replay (depth + 1) (.closed (depth + 1)) = some depth :=
  if_pos ⟨rfl, Nat.le_add_left 1 depth⟩

/-- One record moves the count by one or not at all. -/
theorem add_eq_of_replay {depth depth' : Nat} {e : Event} (h : replay depth e = some depth') :
    depth + (if e.opens then 1 else 0) = depth' + if e.closes then 1 else 0 := by
  cases e with
  | opened d | chained d =>
    obtain ⟨rfl, hd⟩ := Option.ite_none_right_eq_some.mp h
    cases hd
    rfl
  | closed d =>
    obtain ⟨⟨rfl, hpos⟩, hd⟩ := Option.ite_none_right_eq_some.mp h
    cases hd
    exact (Nat.sub_add_cancel hpos).symm
  | tokenized | parsed | generated =>
    cases h
    rfl

/-- So the count at the end is what has been opened and not closed. -/
theorem add_countP_of_foldlM {events : List Event} {depth depth' : Nat}
    (h : events.foldlM replay depth = some depth') :
    depth + events.countP opens = depth' + events.countP closes := by
  induction events generalizing depth with
  | nil =>
    cases h
    rfl
  | cons e events ih =>
    rw [List.foldlM_cons] at h
    obtain ⟨mid, hmid, hrest⟩ := Option.bind_eq_some_iff.mp h
    have hstep := add_eq_of_replay hmid
    have hlast := ih hrest
    rw [List.countP_cons, List.countP_cons]
    omega

end Event

/-! ### Chains -/

/-- How many depths the open chains hold. -/
def openDepth (chains : List (List Nat)) : Nat :=
  chains.flatten.length

theorem openDepth_opened (d : Nat) (chains : List (List Nat)) :
    openDepth ([d] :: chains) = openDepth chains + 1 := by
  rw [openDepth, List.flatten_cons, List.singleton_append, List.length_cons, openDepth]

theorem openDepth_chained (d : Nat) (chain : List Nat) (chains : List (List Nat)) :
    openDepth ((d :: chain) :: chains) = openDepth (chain :: chains) + 1 := by
  rw [openDepth, List.flatten_cons, List.cons_append, List.length_cons, openDepth,
    List.flatten_cons]

/-- What a clause records while `chains` are open, and the chains that are open behind it.  A header
stands outside of all conditionals.  Statements record nothing, whatever a choice among them looks
like. -/
inductive Clause.Records : List (List Nat) → Clause → List Event → List (List Nat) → Prop
  | header {name : String} : Records [] (.header name) [] []
  | opening {chains : List (List Nat)} {exprs : List String} :
      Records chains (.opening exprs) [.opened (openDepth chains + 1)]
        ([openDepth chains + 1] :: chains)
  | chaining {chain : List Nat} {chains : List (List Nat)} {exprs : List String} :
      Records (chain :: chains) (.chaining exprs) [.chained (openDepth (chain :: chains) + 1)]
        (((openDepth (chain :: chains) + 1) :: chain) :: chains)
  | otherwise {chain : List Nat} {chains : List (List Nat)} :
      Records (chain :: chains) .otherwise [] (chain :: chains)
  | closing {chain : List Nat} {chains : List (List Nat)} :
      Records (chain :: chains) .closing (chain.map .closed) chains
  | statement {chains : List (List Nat)} {stmt : Statement} :
      Records chains (.statement stmt) [] chains

/-- What clauses record, one after the other. -/
inductive Chronicle : List (List Nat) → List Clause → List Event → List (List Nat) → Prop
  | nil (chains : List (List Nat)) : Chronicle chains [] [] chains
  | cons {chains chains₁ chains₂ : List (List Nat)} {clause : Clause} {clauses : List Clause}
      {events events' : List Event} : clause.Records chains events chains₁ →
      Chronicle chains₁ clauses events' chains₂ →
      Chronicle chains (clause :: clauses) (events ++ events') chains₂

/-- Chains that were opened one after the other: every depth is one more than what was open. -/
inductive Numbered : List (List Nat) → Prop
  | nil : Numbered []
  | opened {chains : List (List Nat)} : Numbered chains →
      Numbered ([openDepth chains + 1] :: chains)
  | chained {chain : List Nat} {chains : List (List Nat)} : Numbered (chain :: chains) →
      Numbered (((openDepth (chain :: chains) + 1) :: chain) :: chains)

/-- Closing a chain counts down from its latest depth to what was open in front of it. -/
theorem Numbered.replay_closed {chain : List Nat} {chains : List (List Nat)}
    (h : Numbered (chain :: chains)) :
    (chain.map Event.closed).foldlM Event.replay (openDepth (chain :: chains)) =
      some (openDepth chains) := by
  generalize hall : chain :: chains = all at h
  induction h generalizing chain with
  | nil => cases hall
  | opened _ _ =>
    cases hall
    rw [openDepth_opened, List.map_singleton, List.foldlM_cons, Event.replay_closed]
    rfl
  | chained _ ih =>
    cases hall
    rw [openDepth_chained, List.map_cons, List.foldlM_cons, Event.replay_closed]
    exact ih rfl

theorem Numbered.tail {chain : List Nat} {chains : List (List Nat)}
    (h : Numbered (chain :: chains)) : Numbered chains := by
  generalize hall : chain :: chains = all at h
  induction h generalizing chain with
  | nil => cases hall
  | opened h _ =>
    cases hall
    exact h
  | chained _ ih =>
    cases hall
    exact ih rfl

/-- The records of one clause pass the count. -/
theorem Clause.Records.replay {chains chains' : List (List Nat)} {clause : Clause}
    {events : List Event} (h : clause.Records chains events chains') (hchains : Numbered chains) :
    events.foldlM Event.replay (openDepth chains) = some (openDepth chains') ∧
      Numbered chains' := by
  cases h with
  | header | otherwise | statement => exact ⟨rfl, hchains⟩
  | opening =>
    rw [openDepth_opened, List.foldlM_cons, Event.replay_opened]
    exact ⟨rfl, hchains.opened⟩
  | chaining =>
    rw [openDepth_chained, List.foldlM_cons, Event.replay_chained]
    exact ⟨rfl, hchains.chained⟩
  | closing => exact ⟨hchains.replay_closed, hchains.tail⟩

/-- **The records of a chronicle pass the count**, which ends with the depth that is open. -/
theorem Chronicle.replay {chains chains' : List (List Nat)} {clauses : List Clause}
    {events : List Event} (h : Chronicle chains clauses events chains')
    (hchains : Numbered chains) :
    events.foldlM Event.replay (openDepth chains) = some (openDepth chains') := by
  induction h with
  | nil => rfl
  | cons hfirst _ ih =>
    obtain ⟨hevents, hnext⟩ := hfirst.replay hchains
    rw [List.foldlM_append, hevents]
    exact ih hnext

/-- In front of a header all conditionals are closed again. -/
theorem Chronicle.header {chains chains' : List (List Nat)} {early late : List Clause}
    {name : String} {events : List Event}
    (h : Chronicle chains (early ++ .header name :: late) events chains') :
    ∃ before after, events = before ++ after ∧ Chronicle chains early before [] := by
  generalize hclauses : early ++ Clause.header name :: late = clauses at h
  induction h generalizing early with
  | nil => cases early <;> cases hclauses
  | cons hfirst hrest ih =>
    cases early with
    | nil =>
      cases hclauses
      cases hfirst
      exact ⟨[], _, rfl, .nil []⟩
    | cons clause early =>
      cases hclauses
      obtain ⟨before, after, rfl, hbefore⟩ := ih rfl
      exact ⟨_, after, (List.append_assoc _ _ _).symm, .cons hfirst hbefore⟩

/-! ### Chains on the stack -/

/-- The chains of a stack.  A scope on top of a closed one was put there by an `elif` and belongs to
the chain of that one, any other scope starts a chain. -/
inductive Chained : List Scope → List (List Nat) → Prop
  | nil : Chained [] []
  | opened {s : Scope} {below : List Scope} {chains : List (List Nat)} : Chained below chains →
      (∀ b ∈ below.head?, b.phase ≠ .closed) →
      Chained (s :: below) ([openDepth chains + 1] :: chains)
  | chained {s b : Scope} {below : List Scope} {chain : List Nat} {chains : List (List Nat)} :
      Chained (b :: below) (chain :: chains) → b.phase = .closed →
      Chained (s :: b :: below) (((openDepth (chain :: chains) + 1) :: chain) :: chains)

/-- A stack is as deep as its chains. -/
theorem Chained.openDepth_eq {scopes : List Scope} {chains : List (List Nat)}
    (h : Chained scopes chains) : openDepth chains = scopes.length := by
  induction h with
  | nil => rfl
  | opened _ _ ih => rw [openDepth_opened, List.length_cons, ih]
  | chained _ _ ih => rw [openDepth_chained, List.length_cons, ih]

/-- Which chain a scope belongs to does not depend on what the scope holds. -/
theorem Chained.replace {s s' : Scope} {below : List Scope} {chains : List (List Nat)}
    (h : Chained (s :: below) chains) : Chained (s' :: below) chains := by
  cases h with
  | opened h hbelow => exact .opened h hbelow
  | chained h hb => exact .chained h hb

theorem Chained.exists_cons {s : Scope} {below : List Scope} {chains : List (List Nat)}
    (h : Chained (s :: below) chains) : ∃ chain outer, chains = chain :: outer := by
  cases h with
  | opened | chained => exact ⟨_, _, rfl⟩

theorem Chained.extend {st : State} {chains : List (List Nat)} (h : Chained st.scopes chains)
    (stmts : List Statement) : Chained (st.extend stmts).scopes chains := by
  obtain ⟨earlier, current, scopes⟩ := st
  cases scopes with
  | nil => exact h
  | cons s below => exact h.replace

/-- **Settling a conditional closes exactly its chain.** -/
theorem Chained.settle {s : Scope} {below : List Scope} {chain : List Nat}
    {chains : List (List Nat)} (h : Chained (s :: below) (chain :: chains)) (stmt : Statement)
    (current : Segment) :
    Event.closed (below.length + 1) :: (State.settle stmt current below).2.2 =
        chain.map .closed ∧
      Chained (State.settle stmt current below).2.1 chains := by
  generalize hscopes : s :: below = scopes at h
  generalize hall : chain :: chains = all at h
  induction h generalizing s below chain stmt with
  | nil => cases hscopes
  | @opened _ below _ h hbelow _ =>
    -- what encloses the conditional is not closed: it takes the statement and stays
    cases hscopes
    cases hall
    rw [h.openDepth_eq]
    cases below with
    | nil => exact ⟨rfl, h⟩
    | cons b below =>
      unfold State.settle
      split
      · exact ⟨rfl, h.replace⟩
      · exact ⟨rfl, h.replace⟩
      · rename_i hb
        exact absurd hb (hbelow b rfl)
  | @chained _ b below _ _ h hb ih =>
    -- the scope below is closed and complete by this, so it is settled in turn
    cases hscopes
    cases hall
    obtain ⟨hevents, hrest⟩ := ih (b.pushAlternate stmt).conditional rfl rfl
    rw [h.openDepth_eq, State.settle, hb]
    exact ⟨congrArg _ hevents, hrest⟩

/-- **Every step of the parser keeps to the rules.** -/
theorem Steps.records {p : Position} {st st' : State} {clause : Clause} {events : List Event}
    (hstep : Steps p st clause st' events) (hst : st.Collecting) {chains : List (List Nat)}
    (hchains : Chained st.scopes chains) :
    ∃ chains', clause.Records chains events chains' ∧ Chained st'.scopes chains' := by
  cases hstep with
  | header =>
    cases hchains
    exact ⟨[], .header, .nil⟩
  | opening _ =>
    rw [← hchains.openDepth_eq]
    exact ⟨_, .opening, .opened hchains hst⟩
  | @chaining earlier current s below _ _ _ =>
    obtain ⟨chain, outer, rfl⟩ := hchains.exists_cons
    have hdepth : below.length + 2 = openDepth (chain :: outer) + 1 := by
      rw [hchains.openDepth_eq]
      rfl
    rw [hdepth]
    exact ⟨_, .chaining, .chained hchains.replace rfl⟩
  | otherwise _ =>
    obtain ⟨chain, outer, rfl⟩ := hchains.exists_cons
    exact ⟨_, .otherwise, hchains.replace⟩
  | @closing _ current s _ _ =>
    obtain ⟨chain, outer, rfl⟩ := hchains.exists_cons
    obtain ⟨hevents, hrest⟩ := hchains.settle s.conditional current
    rw [hevents]
    exact ⟨outer, .closing, hrest⟩
  | statement _ => exact ⟨chains, .statement, hchains.extend _⟩

/-! ### Runs -/

/-- The clauses that tokens start with, and the tokens behind them. -/
inductive Clauses : List Token → List Clause → List Token → Prop
  | nil (ts : List Token) : Clauses ts [] ts
  | cons {ts mid rest : List Token} {clause : Clause} {clauses : List Clause} :
      ClauseAt ts clause mid → Clauses mid clauses rest → Clauses ts (clause :: clauses) rest

/-- **The log of a run is the chronicle of the clauses that are read**, up to the end of the tokens
or to the clause at which the run fails. -/
theorem chronicle_run (stop : Position) {st : State} (hst : st.Nested) {chains : List (List Nat)}
    (hchains : Chained st.scopes chains) (ts : List Token) :
    ∃ clauses rest chains' fin, Clauses ts clauses rest ∧
      Chronicle chains clauses (st.run stop ts).log chains' ∧ Chained fin.scopes chains' ∧
      Reaches stop (st, ts) (fin, rest) ∧ (rest = [] ∨ ∃ e, Stuck stop (fin, rest) e) := by
  fun_induction State.run stop st ts generalizing chains with
  | case1 st => exact ⟨[], [], chains, st, .nil [], .nil chains, hchains, .refl, .inl rfl⟩
  | case2 st t ts e hclause =>
    have hstuck : Stuck stop (st, t :: ts) e := .clause (takeClause_eq_error_iff.mp hclause)
    exact ⟨[], t :: ts, chains, st, .nil _, .nil _, hchains, .refl, .inr ⟨e, hstuck⟩⟩
  | case3 st t ts clause hclause e hstep =>
    have hstuck : Stuck stop (st, t :: ts) e :=
      .step (takeClause_sound hclause) (hst.collecting.stepFails hstep)
    exact ⟨[], t :: ts, chains, st, .nil _, .nil _, hchains, .refl, .inr ⟨e, hstuck⟩⟩
  | case4 st t ts clause hclause next events hstep ih =>
    have hsteps := step_eq_ok_iff.mp hstep
    obtain ⟨chains₁, hrecords, hchains₁⟩ := hsteps.records hst.collecting hchains
    obtain ⟨clauses, rest, chains₂, fin, hclauses, hchronicle, hfin, hreach, hend⟩ :=
      ih (hst.step hsteps) hchains₁
    exact ⟨_, rest, chains₂, fin, .cons (takeClause_sound hclause) hclauses,
      .cons hrecords hchronicle, hfin, .head (.clause ⟨clause, hclause, rfl, rfl⟩ hstep) hreach, hend⟩

/-- A run that cannot go on is at the end of a script or stuck. -/
theorem parse_of_reaches {ts rest : List Token} {fin : State}
    (hreach : Reaches (lastPosition ts) (.initial, ts) (fin, rest))
    (hend : rest = [] ∨ ∃ e, Stuck (lastPosition ts) (fin, rest) e) :
    (∃ segments, parse ts = .ok segments ∧ rest = [] ∧ fin.scopes = []) ∨
      ∃ e, parse ts = .error e ∧ Stuck (lastPosition ts) (fin, rest) e := by
  rw [parse_eq, run_result_of_reaches hreach]
  obtain rfl | ⟨e, hstuck⟩ := hend
  · obtain ⟨earlier, current, scopes⟩ := fin
    cases scopes with
    | nil =>
      rw [State.run]
      exact .inl ⟨_, rfl, rfl, rfl⟩
    | cons s below =>
      have hstuck : Stuck (lastPosition ts) (⟨earlier, current, s :: below⟩, []) _ := .unclosed
      exact .inr ⟨_, hstuck.run_bind_finish, hstuck⟩
  · exact .inr ⟨e, hstuck.run_bind_finish, hstuck⟩

theorem log_parseLogged_eq (ts : List Token) :
    (parseLogged ts).log = (State.initial.run (lastPosition ts) ts).log ++
      (Logged.record (fun segments => .parsed segments.length) (parse ts)).log := by
  rw [parse_eq, parseLogged, Logged.andThen]
  cases (State.initial.run (lastPosition ts) ts).result with
  | error e => exact (List.append_nil _).symm
  | ok st => rfl

/-- **The log keeps the discipline of a stack.**  In front of the record about the segments stands
the chronicle of the clauses that were read.  It passes the count, also in a log that a failure cuts
short, and the count is zero in front of every header.  If the tokens denote a script, all of them
were read, all chains are closed, and as much was opened as closed.  Otherwise the clauses are those
in front of the place where the parser is stuck. -/
theorem log_parseLogged (ts : List Token) :
    ∃ clauses rest records chains,
      (parseLogged ts).log =
        records ++ (Logged.record (fun segments => .parsed segments.length) (parse ts)).log ∧
      Clauses ts clauses rest ∧ Chronicle [] clauses records chains ∧
      records.foldlM Event.replay 0 = some (openDepth chains) ∧
      (∀ early name late, clauses = early ++ .header name :: late →
        ∃ before after, records = before ++ after ∧ Chronicle [] early before [] ∧
          before.foldlM Event.replay 0 = some 0) ∧
      (∀ segments, parse ts = .ok segments →
        rest = [] ∧ chains = [] ∧ records.countP Event.opens = records.countP Event.closes) ∧
      ∀ e, parse ts = .error e → ∃ st, Reaches (lastPosition ts) (.initial, ts) (st, rest) ∧
        Stuck (lastPosition ts) (st, rest) e := by
  obtain ⟨clauses, rest, chains, fin, hclauses, hchronicle, hchains, hreach, hend⟩ :=
    chronicle_run (lastPosition ts) State.nested_initial .nil ts
  have hreplay := hchronicle.replay .nil
  refine ⟨clauses, rest, _, chains, log_parseLogged_eq ts, hclauses, hchronicle, hreplay, ?_, ?_⟩
  · rintro early name late rfl
    obtain ⟨before, after, hbefore, hearly⟩ := hchronicle.header
    exact ⟨before, after, hbefore, hearly, hearly.replay .nil⟩
  · obtain ⟨segments, hparse, rfl, hscopes⟩ | ⟨e, hparse, hstuck⟩ := parse_of_reaches hreach hend
    · rw [hparse]
      refine ⟨fun _ _ => ?_, by rintro _ ⟨⟩⟩
      -- no scope is open, so no chain is, and the count ends where it began
      rw [hscopes] at hchains
      cases hchains
      have hcount := Event.add_countP_of_foldlM hreplay
      exact ⟨rfl, rfl, by simpa [openDepth] using hcount⟩
    · rw [hparse]
      refine ⟨by rintro _ ⟨⟩, ?_⟩
      rintro _ ⟨⟩
      exact ⟨fin, hreach, hstuck⟩

/-- A conditional with an `elif`, another one inside its second branch, and a header behind. -/
def ladderTokens : List Token :=
  [⟨.keyword .if_, ⟨0, 0⟩⟩, ⟨.condition "day", ⟨0, 4⟩⟩,
    ⟨.keyword .elif, ⟨1, 0⟩⟩, ⟨.condition "dusk", ⟨1, 6⟩⟩,
    ⟨.keyword .if_, ⟨2, 2⟩⟩, ⟨.condition "rain", ⟨2, 6⟩⟩, ⟨.keyword .endif, ⟨3, 2⟩⟩,
    ⟨.keyword .endif, ⟨4, 0⟩⟩, ⟨.header "Hall", ⟨5, 0⟩⟩]

/-- The inner `endif` closes one depth, the outer one two. -/
theorem log_ladderTokens :
    (parseLogged ladderTokens).log =
        [.opened 1, .chained 2, .opened 3, .closed 3, .closed 2, .closed 1, .parsed 2] ∧
      ∃ clauses records, Clauses ladderTokens clauses [] ∧ Chronicle [] clauses records [] ∧
        records.countP Event.opens = records.countP Event.closes := by
  have hparse : ∃ segments, parse ladderTokens = .ok segments := ⟨_, by cbv⟩
  obtain ⟨segments, hparse⟩ := hparse
  obtain ⟨clauses, rest, records, chains, -, hclauses, hchronicle, -, -, hok, -⟩ :=
    log_parseLogged ladderTokens
  obtain ⟨rfl, rfl, hcount⟩ := hok segments hparse
  exact ⟨by cbv, clauses, records, hclauses, hchronicle, hcount⟩

end Dialogue
