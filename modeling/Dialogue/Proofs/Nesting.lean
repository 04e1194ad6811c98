import Dialogue.Proofs.Run
import Mathlib.Data.List.Chain

/-!
# The discipline of the stack

The parser checks, at every clause, that the innermost scope is not closed, and reports an internal
fault if it is.  `parse_ne_internal` says that this never happens, whatever the tokens are.

The invariant is `State.Nested`.  A closed scope is one whose `elif` has been read: it has no
alternate yet, and the scope directly above it is that of the `elif`; above any other scope lies
the scope of a nested `if`.  An `elif` breaks the invariant when it closes the innermost scope and
restores it by its own scope; an `endif` closes the innermost scope and takes off all closed ones
(`State.hand_eq_extend_nest`), each of which becomes the only statement in the alternate of the
next.

That there is always a segment to collect statements in needs no invariant: a `State` has a current
segment besides the earlier ones, so its type rules out an empty list of segments.
-/

namespace Dialogue

open Grammar Relation

/-! ### The invariant -/

/-- How a scope may lie directly above another one. -/
def Scope.Covers (above below : Scope) : Prop :=
  (below.phase = .closed → above.openedBy = .elif) ∧
    (below.phase ≠ .closed → above.openedBy = .if_)

/-- Scopes that may lie on the stack, below one that is not shown: each is opened by the right
keyword, and its alternate is empty until an `else` has been read. -/
def Stacked (scopes : List Scope) : Prop :=
  scopes.IsChain Scope.Covers ∧ ∀ s ∈ scopes, s.phase ≠ .alternate → s.alternate = []

/-- The state in front of every clause. -/
structure State.Nested (st : State) : Prop where
  collecting : st.Collecting
  stacked : Stacked st.scopes

theorem Stacked.tail {s : Scope} {below : List Scope} (h : Stacked (s :: below)) :
    Stacked below :=
  ⟨h.1.tail, fun s' hs' => h.2 s' (List.mem_cons_of_mem s hs')⟩

theorem Stacked.cons {s : Scope} {below : List Scope} (h : Stacked below)
    (hcov : ∀ b ∈ below.head?, s.Covers b) (halt : s.phase ≠ .alternate → s.alternate = []) :
    Stacked (s :: below) := by
  refine ⟨List.isChain_cons.mpr ⟨hcov, h.1⟩, ?_⟩
  intro t ht
  rcases List.mem_cons.mp ht with rfl | ht
  · exact halt
  · exact h.2 t ht

/-- Only the keyword of a scope matters to what lies below it. -/
theorem Stacked.replace {s s' : Scope} {below : List Scope} (h : Stacked (s :: below))
    (hword : s'.openedBy = s.openedBy) (halt : s'.phase ≠ .alternate → s'.alternate = []) :
    Stacked (s' :: below) := by
  refine h.tail.cons ?_ halt
  intro b hb
  have hcov := (List.isChain_cons.mp h.1).1 b hb
  rw [Scope.Covers, hword]
  exact hcov

theorem State.nested_initial : State.initial.Nested :=
  ⟨collecting_of_scopes_eq_nil rfl, .nil, nofun⟩

/-- Collecting statements keeps the discipline. -/
theorem State.Nested.extend {st : State} (h : st.Nested) (stmts : List Statement) :
    (st.extend stmts).Nested := by
  refine ⟨h.collecting.extend stmts, ?_⟩
  obtain ⟨earlier, current, scopes⟩ := st
  cases scopes with
  | nil => exact h.stacked
  | cons s below =>
    have halt := h.stacked.2 s List.mem_cons_self
    obtain ⟨word, start, phase, conditions, consequent, alternate⟩ := s
    apply h.stacked.replace
    · cases phase <;> rfl
    · cases phase with
      | consequent => exact halt
      | alternate => intro hphase; exact absurd rfl hphase
      | closed => exact halt

/-! ### Closing a chain -/

/-- A completed conditional, put into the scopes of the chain that it continues: it is the only
statement in the alternate of the first of them, that one in the alternate of the next, and so on.
-/
def nest : List Scope → Statement → Statement
  | [], stmt => stmt
  | s :: chain, stmt => nest chain (.conditional s.conditions s.consequent [stmt])

/-- **A chain of closed scopes collapses into one statement**, which goes to what encloses it. -/
theorem State.hand_eq_extend_nest {earlier : List Segment} {current : Segment}
    {chain outer : List Scope} (stmt : Statement) (hclosed : ∀ s ∈ chain, s.phase = .closed)
    (halt : ∀ s ∈ chain, s.alternate = []) (houter : ∀ s ∈ outer.head?, s.phase ≠ .closed) :
    hand ⟨earlier, current, chain ++ outer⟩ stmt =
      extend ⟨earlier, current, outer⟩ [nest chain stmt] := by
  induction chain generalizing stmt with
  | nil =>
    have hst : Collecting ⟨earlier, current, outer⟩ := houter
    exact hst.hand stmt
  | cons s chain ih =>
    have hsole : (s.pushAlternate stmt).conditional =
        .conditional s.conditions s.consequent [stmt] := by
      simp [Scope.conditional, Scope.pushAlternate, halt s List.mem_cons_self]
    rw [List.cons_append, hand_closed (hclosed s List.mem_cons_self), hsole, nest]
    exact ih _ (fun t ht => hclosed t (List.mem_cons_of_mem s ht))
      (fun t ht => halt t (List.mem_cons_of_mem s ht))

/-- Every stack is a chain of closed scopes on top of a scope that is not closed. -/
theorem exists_chain (scopes : List Scope) :
    ∃ chain outer, scopes = chain ++ outer ∧ (∀ s ∈ chain, s.phase = .closed) ∧
      ∀ s ∈ outer.head?, s.phase ≠ .closed := by
  induction scopes with
  | nil => exact ⟨[], [], rfl, nofun, nofun⟩
  | cons s below ih =>
    by_cases hs : s.phase = .closed
    · obtain ⟨chain, outer, rfl, hclosed, houter⟩ := ih
      refine ⟨s :: chain, outer, rfl, ?_, houter⟩
      intro t ht
      rcases List.mem_cons.mp ht with rfl | ht
      · exact hs
      · exact hclosed t ht
    · refine ⟨[], s :: below, rfl, nofun, ?_⟩
      rintro _ ⟨⟩
      exact hs

theorem Stacked.of_append {chain outer : List Scope} (h : Stacked (chain ++ outer)) :
    Stacked outer :=
  ⟨h.1.right_of_append, fun s hs => h.2 s (List.mem_append_right chain hs)⟩

theorem Stacked.alternate_of_closed {scopes : List Scope} (h : Stacked scopes) {s : Scope}
    (hs : s ∈ scopes) (hphase : s.phase = .closed) : s.alternate = [] :=
  h.2 s hs (by rw [hphase]; nofun)

/-- An `endif` takes off the innermost scope and the closed ones below it. -/
theorem State.Nested.closing {st st' : State} (h : st.Nested) {p : Position} {events : List Event}
    (hstep : Steps p st .closing st' events) :
    ∃ top chain outer, st.scopes = top :: (chain ++ outer) ∧ (∀ s ∈ chain, s.phase = .closed) ∧
      (∀ s ∈ outer.head?, s.phase ≠ .closed) ∧ Stacked outer ∧
      st' = { st with scopes := outer }.extend [nest chain top.conditional] := by
  cases hstep with
  | @closing earlier current top below _ =>
    obtain ⟨chain, outer, rfl, hclosed, houter⟩ := exists_chain below
    have hbelow := h.stacked.tail
    refine ⟨top, chain, outer, rfl, hclosed, houter, hbelow.of_append, ?_⟩
    apply hand_eq_extend_nest _ hclosed _ houter
    intro s hs
    exact hbelow.alternate_of_closed (List.mem_append_left outer hs) (hclosed s hs)

/-! ### Every step keeps the invariant -/

/-- **Every step leads from a nested state to a nested state.** -/
theorem State.Nested.step {st st' : State} (h : st.Nested) {p : Position} {clause : Clause}
    {events : List Event} (hstep : Steps p st clause st' events) : st'.Nested := by
  cases hstep with
  | header => exact ⟨collecting_of_scopes_eq_nil rfl, .nil, nofun⟩
  | @opening earlier current scopes exprs _ =>
    -- the scope below is still collecting, so it takes an `if`
    refine ⟨by rintro _ ⟨⟩; nofun, h.stacked.cons ?_ fun _ => rfl⟩
    intro b hb
    exact ⟨fun hphase => absurd hphase (h.collecting b hb), fun _ => rfl⟩
  | @chaining earlier current s below exprs hphase _ =>
    -- the scope below is closed by this very step, and its alternate is still empty
    have halt : s.alternate = [] := h.stacked.2 s List.mem_cons_self (by rw [hphase]; nofun)
    have hclosed : Stacked ({ s with phase := .closed } :: below) :=
      h.stacked.replace rfl fun _ => halt
    refine ⟨by rintro _ ⟨⟩; nofun, hclosed.cons ?_ fun _ => rfl⟩
    rintro _ ⟨⟩
    exact ⟨fun _ => rfl, fun hphase => absurd rfl hphase⟩
  | otherwise _ =>
    exact ⟨by rintro _ ⟨⟩; nofun, h.stacked.replace rfl fun hphase => absurd rfl hphase⟩
  | @closing earlier current s below hphase =>
    have hclosing := @Steps.closing p earlier current s below hphase
    obtain ⟨top, chain, outer, -, -, houter, hstacked, hst'⟩ := h.closing hclosing
    rw [hst']
    refine State.Nested.extend ?_ _
    exact ⟨houter, hstacked⟩
  | statement => exact h.extend _

/-- The state in front of every clause is nested. -/
theorem State.Nested.reaches {stop : Position} {c c' : State × List Token} (h : c.1.Nested)
    (hreach : Reaches stop c c') : c'.1.Nested := by
  induction hreach with
  | refl => exact h
  | tail _ hadv ih =>
    obtain ⟨-, hstep⟩ := hadv
    exact ih.step (step_eq_ok_iff.mp hstep)

/-! ### Failures -/

/-- If there is no value, then because of an error in the script. -/
def OnlySyntactic {α : Type} (x : Except Error α) : Prop :=
  ∀ e, x = .error e → ∃ fault p, e = .syntactic fault p

theorem onlySyntactic_ok {α : Type} (a : α) : OnlySyntactic (.ok a) :=
  nofun

theorem onlySyntactic_error {α : Type} (fault : SyntaxFault) (p : Position) :
    OnlySyntactic (.error (.syntactic fault p) : Except Error α) := by
  rintro _ ⟨⟩
  exact ⟨fault, p, rfl⟩

theorem OnlySyntactic.map {α β : Type} {x : Except Error α} (h : OnlySyntactic x) (f : α → β) :
    OnlySyntactic (x.map f) := by
  cases x with
  | ok a => exact onlySyntactic_ok (f a)
  | error e =>
    rintro _ ⟨⟩
    exact h e rfl

theorem OnlySyntactic.of_error {α β : Type} {x : Except Error α} (h : OnlySyntactic x) {e : Error}
    (hx : x = .error e) : OnlySyntactic (.error e : Except Error β) := by
  rintro _ ⟨⟩
  exact h e hx

theorem takeArguments_onlySyntactic (line : Nat) (ts : List Token) :
    OnlySyntactic (takeArguments line ts) := by
  induction ts with
  | nil => exact onlySyntactic_ok _
  | cons t ts ih =>
    rw [takeArguments]
    split
    · split
      · exact ih.map _
      · exact ih.map _
      · exact onlySyntactic_error _ _
    · exact onlySyntactic_ok _

theorem takeOffer_takeBranch_onlySyntactic (stop : Position) :
    (∀ word start ts, OnlySyntactic (takeOffer stop word start ts)) ∧
      ∀ ts, OnlySyntactic (takeBranch stop ts) := by
  apply takeOffer.mutual_induct_unfolding stop (fun _ _ _ x => OnlySyntactic x)
    (fun _ x => OnlySyntactic x)
  all_goals intros
  all_goals first
    | exact onlySyntactic_ok _
    | exact onlySyntactic_error _ _
    | exact OnlySyntactic.of_error ‹_› ‹_›
    | exact OnlySyntactic.map ‹_› _

theorem takeChoice_onlySyntactic (stop start : Position) (ts : List Token) :
    OnlySyntactic (takeChoice stop start ts) := by
  unfold takeChoice
  split
  · exact onlySyntactic_ok _
  · exact ((takeOffer_takeBranch_onlySyntactic stop).1 _ _ _).map _
  · exact onlySyntactic_error _ _
  · exact onlySyntactic_error _ _

theorem takeClause_onlySyntactic (stop : Position) (t : Token) (ts : List Token) :
    OnlySyntactic (takeClause stop t ts) := by
  unfold takeClause
  split
  case h_6 => exact (takeChoice_onlySyntactic stop _ ts).map _
  case h_7 =>
    simp only
    split
    · exact onlySyntactic_ok _
    · exact onlySyntactic_error _ _
  case h_10 => exact (takeArguments_onlySyntactic _ ts).map _
  case h_11 => exact onlySyntactic_error _ _
  case h_12 => exact onlySyntactic_error _ _
  all_goals exact onlySyntactic_ok _

theorem State.openScope_onlySyntactic (st : State) (word : Keyword) (p : Position)
    (exprs : List String) (below : List Scope) (event : Nat → Event) :
    OnlySyntactic (st.openScope word p exprs below event) := by
  unfold State.openScope
  split
  · exact onlySyntactic_error _ _
  · exact onlySyntactic_ok _

theorem State.checkClosed_onlySyntactic (st : State) : OnlySyntactic st.checkClosed := by
  unfold State.checkClosed
  split
  · exact onlySyntactic_ok _
  · exact onlySyntactic_error _ _

/-- **No check on the stack fails** as long as the innermost scope is not closed. -/
theorem State.Collecting.step_onlySyntactic {st : State} (h : st.Collecting) (p : Position)
    (clause : Clause) : OnlySyntactic (st.step p clause) := by
  cases clause with
  | header name =>
    rw [State.step]
    split
    · rename_i e he
      exact st.checkClosed_onlySyntactic.of_error he
    · exact onlySyntactic_ok _
  | opening exprs => exact st.openScope_onlySyntactic _ _ _ _ _
  | chaining exprs =>
    rw [State.step]
    split
    · exact onlySyntactic_error _ _
    · rename_i s below hscopes
      split
      · exact st.openScope_onlySyntactic _ _ _ _ _
      · exact onlySyntactic_error _ _
      · rename_i hphase
        exact absurd hphase (h s (by rw [hscopes]; rfl))
  | otherwise =>
    rw [State.step]
    split
    · exact onlySyntactic_error _ _
    · rename_i s below hscopes
      split
      · exact onlySyntactic_ok _
      · exact onlySyntactic_error _ _
      · rename_i hphase
        exact absurd hphase (h s (by rw [hscopes]; rfl))
  | closing =>
    rw [State.step]
    split
    · exact onlySyntactic_error _ _
    · rename_i s below hscopes
      rw [if_neg (h s (by rw [hscopes]; rfl))]
      exact onlySyntactic_ok _
  | statement stmt =>
    rw [State.step, h.add]
    exact onlySyntactic_ok _

theorem State.finish_onlySyntactic (st : State) : OnlySyntactic st.finish := by
  rw [State.finish]
  split
  · rename_i e he
    exact st.checkClosed_onlySyntactic.of_error he
  · exact onlySyntactic_ok _

/-- A run from a nested state fails with an error in the script, if it fails. -/
theorem State.Nested.run_onlySyntactic {st : State} (h : st.Nested) (stop : Position)
    (ts : List Token) : OnlySyntactic (st.run stop ts).result := by
  intro e he
  obtain ⟨st', t, ts', hreach, hfail⟩ := exists_failure_of_run he
  have hst' : st'.Nested := h.reaches hreach
  obtain hclause | ⟨clause, rest, -, hstep⟩ := hfail
  · exact takeClause_onlySyntactic stop t ts' e hclause
  · exact hst'.collecting.step_onlySyntactic t.position clause e hstep

theorem parse_onlySyntactic (ts : List Token) : OnlySyntactic (parse ts) := by
  rw [parse_eq]
  have hrun := State.nested_initial.run_onlySyntactic (lastPosition ts) ts
  cases hresult : (State.initial.run (lastPosition ts) ts).result with
  | error e => exact hrun.of_error hresult
  | ok st => exact st.finish_onlySyntactic

/-- **The parser never runs into a fault of its own.**  Every list of tokens gives segments or an
error in the script.  The state in front of every clause that is read on the way is nested, and when
an `endif` takes a chain of scopes off the stack, each conditional of the chain becomes the only
statement in the alternate of the next. -/
theorem parse_ne_internal (ts : List Token) :
    ((∃ segments, parse ts = .ok segments) ∨
        ∃ fault p, parse ts = .error (.syntactic fault p)) ∧
      ∀ st rest, Reaches (lastPosition ts) (.initial, ts) (st, rest) → st.Nested ∧
        ∀ p st' events, st.step p .closing = .ok (st', events) →
          ∃ top chain outer, st.scopes = top :: (chain ++ outer) ∧
            (∀ s ∈ chain, s.phase = .closed) ∧ (∀ s ∈ outer.head?, s.phase ≠ .closed) ∧
            st' = { st with scopes := outer }.extend [nest chain top.conditional] := by
  constructor
  · cases hparse : parse ts with
    | ok segments => exact .inl ⟨segments, rfl⟩
    | error e =>
      obtain ⟨fault, p, rfl⟩ := parse_onlySyntactic ts e hparse
      exact .inr ⟨fault, p, rfl⟩
  · intro st rest hreach
    have hst : st.Nested := State.nested_initial.reaches hreach
    refine ⟨hst, ?_⟩
    intro p st' events hstep
    obtain ⟨top, chain, outer, hscopes, hclosed, houter, -, hst'⟩ :=
      hst.closing (step_eq_ok_iff.mp hstep)
    exact ⟨top, chain, outer, hscopes, hclosed, houter, hst'⟩

end Dialogue
