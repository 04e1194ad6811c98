import Dialogue.Proofs.Readers
import Dialogue.Script.Parser
import Mathlib.Logic.Relation

/-!
# Runs of the parser

`State.run` as a sequence of steps between *configurations*, which are a state together with the
tokens that are still to be read.  `Advances` is one round of its loop and `Reaches` any number of
them.  The result of a run is not changed by a step (`run_result_of_reaches`), a successful run
reaches its result with no tokens left (`reaches_of_run`), and a failing one reaches the clause at
which it fails (`exists_failure_of_run`).

The second half says what a state collects.  While the innermost scope is not closed
(`State.Collecting`), statements are added at its end (`State.extend`), and so is a conditional
that has become complete (`State.hand`).
-/

namespace Dialogue

open Grammar Relation

/-! ### Configurations -/

/-- The parser reads one clause. -/
inductive Advances (stop : Position) : State × List Token → State × List Token → Prop
  | clause {st st' : State} {t : Token} {ts rest : List Token} {clause : Clause}
      {events : List Event} : Yields (takeClause stop t ts) clause rest →
      st.step t.position clause = .ok (st', events) → Advances stop (st, t :: ts) (st', rest)

/-- The parser reads any number of clauses. -/
def Reaches (stop : Position) : State × List Token → State × List Token → Prop :=
  ReflTransGen (Advances stop)

theorem Advances.run_result {stop : Position} {c c' : State × List Token}
    (h : Advances stop c c') : (c.1.run stop c.2).result = (c'.1.run stop c'.2).result := by
  obtain ⟨⟨clause, hclause, rfl, rfl⟩, hstep⟩ := h
  rw [State.run, hclause]
  simp only [hstep]
  rfl

/-- The result of a run is that of the rest of the run. -/
theorem run_result_of_reaches {stop : Position} {c c' : State × List Token}
    (h : Reaches stop c c') : (c.1.run stop c.2).result = (c'.1.run stop c'.2).result := by
  induction h with
  | refl => rfl
  | tail _ hstep ih => exact ih.trans hstep.run_result

theorem Advances.suffix {stop : Position} {c c' : State × List Token}
    (h : Advances stop c c') : c'.2 <:+ c.2 := by
  obtain ⟨⟨clause, -, rfl, rfl⟩, -⟩ := h
  exact clause.suffix.trans (List.suffix_cons _ _)

/-- What is left to read is an end of what there was. -/
theorem Reaches.suffix {stop : Position} {c c' : State × List Token}
    (h : Reaches stop c c') : c'.2 <:+ c.2 := by
  induction h with
  | refl => exact List.suffix_refl _
  | tail _ hstep ih => exact hstep.suffix.trans ih

theorem Reaches.length_le {stop : Position} {c c' : State × List Token}
    (h : Reaches stop c c') : c'.2.length ≤ c.2.length :=
  h.suffix.length_le

/-- A successful run reads all tokens. -/
theorem reaches_of_run {stop : Position} {st fin : State} {ts : List Token}
    (h : (st.run stop ts).result = .ok fin) : Reaches stop (st, ts) (fin, []) := by
  fun_induction State.run stop st ts with
  | case1 st =>
    cases h
    exact .refl
  | case2 st t ts e hclause => cases h
  | case3 st t ts clause hclause e hstep => cases h
  | case4 st t ts clause hclause next events hstep ih =>
    exact .head (.clause ⟨clause, hclause, rfl, rfl⟩ hstep) (ih h)

theorem run_eq_ok_iff {stop : Position} {st fin : State} {ts : List Token} :
    (st.run stop ts).result = .ok fin ↔ Reaches stop (st, ts) (fin, []) := by
  refine ⟨reaches_of_run, fun h => ?_⟩
  rw [run_result_of_reaches h, State.run]

/-- A failing run reaches a clause that cannot be read or does not fit. -/
theorem exists_failure_of_run {stop : Position} {st : State} {ts : List Token} {e : Error}
    (h : (st.run stop ts).result = .error e) :
    ∃ st' t ts', Reaches stop (st, ts) (st', t :: ts') ∧
      (takeClause stop t ts' = .error e ∨
        ∃ clause rest, Yields (takeClause stop t ts') clause rest ∧
          st'.step t.position clause = .error e) := by
  fun_induction State.run stop st ts with
  | case1 st => cases h
  | case2 st t ts e' hclause =>
    cases h
    exact ⟨st, t, ts, .refl, .inl hclause⟩
  | case3 st t ts clause hclause e' hstep =>
    cases h
    exact ⟨st, t, ts, .refl, .inr ⟨clause.value, clause.rest, ⟨clause, hclause, rfl, rfl⟩, hstep⟩⟩
  | case4 st t ts clause hclause next events hstep ih =>
    obtain ⟨st', t', ts', hreach, hfail⟩ := ih h
    exact ⟨st', t', ts', .head (.clause ⟨clause, hclause, rfl, rfl⟩ hstep) hreach, hfail⟩

theorem Logged.result_record {α : Type} (event : α → Event) (x : Except Error α) :
    (Logged.record event x).result = x := by
  cases x <;> rfl

theorem Logged.result_andThen {α β : Type} (x : Logged α) (f : α → Logged β) :
    (x.andThen f).result = x.result.bind fun a => (f a).result := by
  rw [Logged.andThen]
  cases x.result <;> rfl

/-- What tokens denote is what the run over them ends with. -/
theorem parse_eq (ts : List Token) :
    parse ts = (State.initial.run (lastPosition ts) ts).result.bind State.finish := by
  rw [parse, parseLogged, Logged.result_andThen]
  simp only [Logged.result_record]

/-- A script ends where no tokens are left and no scope is open. -/
theorem run_bind_finish_eq_ok_iff {stop : Position} {st : State} {ts : List Token}
    {segments : List Segment} :
    (st.run stop ts).result.bind State.finish = .ok segments ↔
      ∃ earlier current, Reaches stop (st, ts) (⟨earlier, current, []⟩, []) ∧
        segments = State.dropEmptyLead (earlier ++ [current]) := by
  constructor
  · intro h
    cases hrun : (st.run stop ts).result with
    | error e =>
      rw [hrun] at h
      cases h
    | ok fin =>
      rw [hrun] at h
      obtain ⟨earlier, current, scopes⟩ := fin
      cases scopes with
      | nil =>
        cases h
        exact ⟨earlier, current, reaches_of_run hrun, rfl⟩
      | cons s below => cases h
  · rintro ⟨earlier, current, hreach, rfl⟩
    rw [run_eq_ok_iff.mpr hreach]
    rfl

/-! ### What a state collects -/

/-- A scope with more statements in the branch that it collects. -/
def Scope.extend (s : Scope) (stmts : List Statement) : Scope :=
  match s.phase with
  | .consequent => { s with consequent := s.consequent ++ stmts }
  | .alternate => { s with alternate := s.alternate ++ stmts }
  | .closed => s

theorem Scope.extend_nil (s : Scope) : s.extend [] = s := by
  obtain ⟨word, start, phase, conditions, consequent, alternate⟩ := s
  cases phase <;> simp [Scope.extend]

theorem Scope.extend_extend (s : Scope) (a b : List Statement) :
    (s.extend a).extend b = s.extend (a ++ b) := by
  obtain ⟨word, start, phase, conditions, consequent, alternate⟩ := s
  cases phase <;> simp [Scope.extend]

namespace State

/-- The innermost scope, if there is one, is not closed. -/
def Collecting (st : State) : Prop :=
  ∀ s ∈ st.scopes.head?, s.phase ≠ .closed

/-- The state with more statements in the branch or the segment that it collects. -/
def extend (st : State) (stmts : List Statement) : State :=
  match st.scopes with
  | [] => { st with current := ⟨st.current.name, st.current.children ++ stmts⟩ }
  | s :: below => { st with scopes := s.extend stmts :: below }

/-- The state with a completed conditional handed to its scopes. -/
def hand (st : State) (stmt : Statement) : State :=
  ⟨st.earlier, (settle stmt st.current st.scopes).1, (settle stmt st.current st.scopes).2.1⟩

theorem extend_nil (st : State) : st.extend [] = st := by
  obtain ⟨earlier, current, scopes⟩ := st
  cases scopes with
  | nil => simp [extend]
  | cons s below => simp [extend, Scope.extend_nil]

theorem extend_extend (st : State) (a b : List Statement) :
    (st.extend a).extend b = st.extend (a ++ b) := by
  obtain ⟨earlier, current, scopes⟩ := st
  cases scopes with
  | nil => simp [extend]
  | cons s below => simp [extend, Scope.extend_extend]

theorem collecting_of_scopes_eq_nil {st : State} (h : st.scopes = []) : st.Collecting := by
  intro s hs
  rw [h] at hs
  cases hs

theorem scopes_eq_nil_of_finish {st : State} {segments : List Segment}
    (h : st.finish = .ok segments) : st.scopes = [] := by
  obtain ⟨earlier, current, scopes⟩ := st
  cases scopes with
  | nil => rfl
  | cons s below => cases h

theorem Collecting.extend {st : State} (h : st.Collecting) (stmts : List Statement) :
    (st.extend stmts).Collecting := by
  obtain ⟨earlier, current, scopes⟩ := st
  cases scopes with
  | nil => nofun
  | cons s below =>
    rintro _ ⟨⟩
    have hs := h s rfl
    unfold Scope.extend
    split <;> exact hs

/-- A statement goes to the end of what is collected. -/
theorem Collecting.add {st : State} (h : st.Collecting) (stmt : Statement) :
    st.add stmt = .ok (st.extend [stmt]) := by
  obtain ⟨earlier, current, scopes⟩ := st
  cases scopes with
  | nil => rfl
  | cons s below =>
    have hs := h s rfl
    cases hphase : s.phase with
    | consequent => simp [State.add, State.extend, Scope.extend, hphase, Scope.pushConsequent]
    | alternate => simp [State.add, State.extend, Scope.extend, hphase, Scope.pushAlternate]
    | closed => exact absurd hphase hs

/-- So does a completed conditional. -/
theorem Collecting.hand {st : State} (h : st.Collecting) (stmt : Statement) :
    st.hand stmt = st.extend [stmt] := by
  obtain ⟨earlier, current, scopes⟩ := st
  cases scopes with
  | nil => rfl
  | cons s below =>
    have hs := h s rfl
    cases hphase : s.phase with
    | consequent =>
      simp [State.hand, settle, State.extend, Scope.extend, hphase, Scope.pushConsequent]
    | alternate =>
      simp [State.hand, settle, State.extend, Scope.extend, hphase, Scope.pushAlternate]
    | closed => exact absurd hphase hs

/-- A closed scope takes a completed conditional as its alternate and is handed on. -/
theorem hand_closed {earlier : List Segment} {current : Segment} {s : Scope} {below : List Scope}
    {stmt : Statement} (h : s.phase = .closed) :
    hand ⟨earlier, current, s :: below⟩ stmt =
      hand ⟨earlier, current, below⟩ (s.pushAlternate stmt).conditional := by
  simp [State.hand, settle, h]

end State

/-! ### Steps -/

/-- What a clause at `p` does to a state that it fits. -/
inductive Steps (p : Position) : State → Clause → State → List Event → Prop
  | header {earlier : List Segment} {current : Segment} {name : String} :
      Steps p ⟨earlier, current, []⟩ (.header name) ⟨earlier ++ [current], ⟨name, []⟩, []⟩ []
  | opening {earlier : List Segment} {current : Segment} {scopes : List Scope}
      {exprs : List String} : exprs ≠ [] →
      Steps p ⟨earlier, current, scopes⟩ (.opening exprs)
        ⟨earlier, current, .start .if_ p exprs :: scopes⟩ [.opened (scopes.length + 1)]
  | chaining {earlier : List Segment} {current : Segment} {s : Scope} {below : List Scope}
      {exprs : List String} : s.phase = .consequent → exprs ≠ [] →
      Steps p ⟨earlier, current, s :: below⟩ (.chaining exprs)
        ⟨earlier, current, .start .elif p exprs :: { s with phase := .closed } :: below⟩
        [.chained (below.length + 2)]
  | otherwise {earlier : List Segment} {current : Segment} {s : Scope} {below : List Scope} :
      s.phase = .consequent →
      Steps p ⟨earlier, current, s :: below⟩ .otherwise
        ⟨earlier, current, { s with phase := .alternate } :: below⟩ []
  | closing {earlier : List Segment} {current : Segment} {s : Scope} {below : List Scope} :
      s.phase ≠ .closed →
      Steps p ⟨earlier, current, s :: below⟩ .closing
        (State.hand ⟨earlier, current, below⟩ s.conditional)
        (.closed (below.length + 1) :: (State.settle s.conditional current below).2.2)
  | statement {st : State} {stmt : Statement} : st.Collecting →
      Steps p st (.statement stmt) (st.extend [stmt]) []

theorem openScope_eq_ok_iff {st st' : State} {word : Keyword} {p : Position} {exprs : List String}
    {below : List Scope} {event : Nat → Event} {events : List Event} :
    st.openScope word p exprs below event = .ok (st', events) ↔ exprs ≠ [] ∧
      st' = { st with scopes := .start word p exprs :: below } ∧
      events = [event (below.length + 1)] := by
  cases exprs with
  | nil => simp [State.openScope]
  | cons expr exprs =>
    simp only [State.openScope, List.isEmpty_cons, Bool.false_eq_true, if_false]
    simp [eq_comm]

theorem add_eq_ok_iff {st st' : State} {stmt : Statement} :
    st.add stmt = .ok st' ↔ st.Collecting ∧ st' = st.extend [stmt] := by
  constructor
  · intro h
    have hst : st.Collecting := by
      intro s hs hphase
      obtain ⟨below, hscopes⟩ := List.head?_eq_some_iff.mp hs
      simp [State.add, hscopes, hphase] at h
    rw [hst.add] at h
    cases h
    exact ⟨hst, rfl⟩
  · rintro ⟨hst, rfl⟩
    exact hst.add stmt

/-- **The steps that succeed, one for each kind of clause.** -/
theorem step_eq_ok_iff {st st' : State} {p : Position} {clause : Clause} {events : List Event} :
    st.step p clause = .ok (st', events) ↔ Steps p st clause st' events := by
  obtain ⟨earlier, current, scopes⟩ := st
  cases clause with
  | header name =>
    cases scopes with
    | nil =>
      constructor
      · rintro ⟨⟩
        exact .header
      · rintro ⟨⟩
        rfl
    | cons s below => exact ⟨nofun, nofun⟩
  | opening exprs =>
    rw [State.step, openScope_eq_ok_iff]
    constructor
    · rintro ⟨hne, rfl, rfl⟩
      exact .opening hne
    · intro h
      cases h with
      | opening hne => exact ⟨hne, rfl, rfl⟩
  | chaining exprs =>
    cases scopes with
    | nil => exact ⟨nofun, nofun⟩
    | cons s below =>
      constructor
      · intro h
        cases hphase : s.phase with
        | consequent =>
          simp only [State.step, hphase] at h
          obtain ⟨hne, rfl, rfl⟩ := openScope_eq_ok_iff.mp h
          exact .chaining hphase hne
        | alternate => simp [State.step, hphase] at h
        | closed => simp [State.step, hphase] at h
      · intro h
        cases h with
        | chaining hphase hne =>
          simp only [State.step, hphase]
          exact openScope_eq_ok_iff.mpr ⟨hne, rfl, rfl⟩
  | otherwise =>
    cases scopes with
    | nil => exact ⟨nofun, nofun⟩
    | cons s below =>
      constructor
      · intro h
        cases hphase : s.phase with
        | consequent =>
          simp only [State.step, hphase] at h
          cases h
          exact .otherwise hphase
        | alternate => simp [State.step, hphase] at h
        | closed => simp [State.step, hphase] at h
      · intro h
        cases h with
        | otherwise hphase => simp only [State.step, hphase]
  | closing =>
    cases scopes with
    | nil => exact ⟨nofun, nofun⟩
    | cons s below =>
      constructor
      · intro h
        by_cases hphase : s.phase = .closed
        · simp [State.step, hphase] at h
        · simp only [State.step, if_neg hphase] at h
          cases h
          exact .closing hphase
      · intro h
        cases h with
        | closing hphase =>
          simp only [State.step, if_neg hphase]
          rfl
  | statement stmt =>
    constructor
    · intro h
      cases hadd : State.add ⟨earlier, current, scopes⟩ stmt with
      | error e =>
        rw [State.step, hadd] at h
        cases h
      | ok next =>
        rw [State.step, hadd] at h
        cases h
        obtain ⟨hst, rfl⟩ := add_eq_ok_iff.mp hadd
        exact .statement hst
    · intro h
      cases h with
      | statement hst =>
        rw [State.step, hst.add]
        rfl

end Dialogue
