import Dialogue.Log
import Dialogue.Script.Clause

/-!
# Scopes

Clauses nest by means of a stack of *scopes*, one for each `if` and `elif` whose branches are still
being collected, the innermost first.  A scope is in one of three phases: it collects its
consequent, it collects its alternate, or it is closed and only waits to be taken off the stack.

An `elif` closes the scope that it continues and puts a scope of its own on top.  So a closed scope
is always covered by the `elif` that is its alternate, and an `endif`, which closes the scope on
top, takes off that scope together with all closed ones below it (`settle`): each becomes the
alternate of the next, and the first one goes to whatever encloses the whole conditional.

`State.step` makes the checks that this discipline rests on and answers with an internal fault
where one fails.
-/

namespace Dialogue

/-! ### Scopes -/

/-- What a scope is waiting for. -/
inductive Phase where
  | consequent
  | alternate
  | closed
deriving DecidableEq, Repr

/-- A conditional that is not complete yet, with the keyword that opened it and its position. -/
structure Scope where
  openedBy : Keyword
  openedAt : Position
  phase : Phase
  conditions : List String
  consequent : List Statement
  alternate : List Statement
deriving Repr

namespace Scope

/-- A scope with nothing in its branches. -/
def start (word : Keyword) (position : Position) (conditions : List String) : Scope :=
  ⟨word, position, .consequent, conditions, [], []⟩

/-- The conditional that a scope has collected. -/
def conditional (s : Scope) : Statement :=
  .conditional s.conditions s.consequent s.alternate

/-- A scope with one more statement in its consequent. -/
def pushConsequent (s : Scope) (stmt : Statement) : Scope :=
  { s with consequent := s.consequent ++ [stmt] }

/-- A scope with one more statement in its alternate. -/
def pushAlternate (s : Scope) (stmt : Statement) : Scope :=
  { s with alternate := s.alternate ++ [stmt] }

end Scope

/-! ### States -/

/-- What has been read so far: the finished segments, the one being collected, and its open scopes.
-/
structure State where
  earlier : List Segment
  current : Segment
  scopes : List Scope
deriving Repr

namespace State

/-- Nothing has been read.  Statements in front of the first header belong to a segment without a
name. -/
def initial : State :=
  ⟨[], ⟨"", []⟩, []⟩

/-- Adds a statement to the branch being collected, or to the segment if no scope is open. -/
def add (st : State) (stmt : Statement) : Except Error State :=
  match st.scopes with
  | [] => .ok { st with current := st.current.push stmt }
  | s :: below =>
    match s.phase with
    | .consequent => .ok { st with scopes := s.pushConsequent stmt :: below }
    | .alternate => .ok { st with scopes := s.pushAlternate stmt :: below }
    | .closed => .error (.internal .statementInClosedScope)

/-- Hands a completed conditional to what encloses it.  A closed scope takes it as its alternate
and is complete by that, so it is handed on in turn. -/
def settle (stmt : Statement) (current : Segment) : List Scope → Segment × List Scope × List Event
  | [] => (current.push stmt, [], [])
  | s :: below =>
    match s.phase with
    | .consequent => (current, s.pushConsequent stmt :: below, [])
    | .alternate => (current, s.pushAlternate stmt :: below, [])
    | .closed =>
      let (segment, scopes, events) := settle (s.pushAlternate stmt).conditional current below
      (segment, scopes, .closed (below.length + 1) :: events)

/-- Starts a scope on top of `below`, and fails if the keyword that does so has no conditions. -/
def openScope (st : State) (word : Keyword) (position : Position) (conditions : List String)
    (below : List Scope) (event : Nat → Event) : Except Error (State × List Event) :=
  if conditions.isEmpty then .error (.syntactic (.missingCondition word) position)
  else
    .ok ({ st with scopes := .start word position conditions :: below }, [event (below.length + 1)])

/-- Fails if a scope is open, at the keyword that opened the innermost one. -/
def checkClosed (st : State) : Except Error Unit :=
  match st.scopes with
  | [] => .ok ()
  | s :: _ => .error (.syntactic .unclosedConditional s.openedAt)

/-- Reads a clause that starts at `position`. -/
def step (st : State) (position : Position) : Clause → Except Error (State × List Event)
  | .header name =>
    match st.checkClosed with
    | .error e => .error e
    | .ok () => .ok ({ st with earlier := st.earlier ++ [st.current], current := ⟨name, []⟩ }, [])
  | .opening conditions => st.openScope .if_ position conditions st.scopes .opened
  | .chaining conditions =>
    match st.scopes with
    | [] => .error (.syntactic .elifWithoutIf position)
    | s :: below =>
      match s.phase with
      | .consequent =>
        st.openScope .elif position conditions ({ s with phase := .closed } :: below) .chained
      | .alternate => .error (.syntactic .elifAfterElse position)
      | .closed => .error (.internal (.keywordOnClosedScope .elif))
  | .otherwise =>
    match st.scopes with
    | [] => .error (.syntactic .elseWithoutIf position)
    | s :: below =>
      match s.phase with
      | .consequent => .ok ({ st with scopes := { s with phase := .alternate } :: below }, [])
      | .alternate => .error (.syntactic .duplicateElse position)
      | .closed => .error (.internal (.keywordOnClosedScope .else_))
  | .closing =>
    match st.scopes with
    | [] => .error (.syntactic .endifWithoutIf position)
    | s :: below =>
      if s.phase = .closed then .error (.internal (.keywordOnClosedScope .endif))
      else
        let (segment, scopes, events) := settle s.conditional st.current below
        .ok (⟨st.earlier, segment, scopes⟩, .closed (below.length + 1) :: events)
  | .statement stmt => (st.add stmt).map (·, [])

/-- Segments without the one in front of the first header, if that one holds no statements. -/
def dropEmptyLead : List Segment → List Segment
  | [] => []
  | first :: rest =>
    if first.isAnonymous && first.children.isEmpty then rest else first :: rest

/-- The segments of a script that ends here. -/
def finish (st : State) : Except Error (List Segment) :=
  match st.checkClosed with
  | .error e => .error e
  | .ok () => .ok (dropEmptyLead (st.earlier ++ [st.current]))

end State

end Dialogue
