import Dialogue.Error
import Dialogue.Script

/-!
# Routines

Choices that stand next to each other are presented as one menu.  `Step.group` cuts the statements
of a block into steps: menus, which are maximal runs of choices, and the other statements one by
one.

Every segment becomes a routine of the generated program.  A routine is a tree of actions: the
statements of the segment, with each run of choices made into a menu that has a variable of its
own.  The variables are told apart by their numbers, their *slots*.  Slots are given out in the
order of the text and never twice in a program, so a block is lowered from the first slot that is
still free and answers with the next one.

A block is lowered step by step.  The recursion ends because the steps of a block weigh no more
than its statements, and a conditional weighs more than its branches.
-/

namespace Dialogue

/-! ### Steps -/

/-- A menu, or a statement that is no choice. -/
inductive Step where
  | menu (choices : List Statement)
  | plain (stmt : Statement)
deriving Repr

namespace Step

/-- A choice in front of steps: it joins a menu that comes first. -/
def consChoice (choice : Statement) : List Step → List Step
  | .menu choices :: steps => .menu (choice :: choices) :: steps
  | steps => .menu [choice] :: steps

/-- The steps of a block. -/
def group : List Statement → List Step
  | [] => []
  | stmt :: stmts =>
    if stmt.isChoice then consChoice stmt (group stmts) else .plain stmt :: group stmts

end Step

/-! ### Actions -/

/-- What a routine does. -/
inductive Action where
  | say (actor line : String)
  /-- Leave the routine; the program goes on at `target`. -/
  | leave (target : String)
  | call (name : String) (args : List String)
  /-- Code of the host platform, as it is. -/
  | code (text : String)
  /-- Present choices, and leave the routine if the answer says so. -/
  | menu (slot : Nat) (choices : List Statement)
  | branch (conditions : List String) (consequent alternate : List Action)
deriving Repr

/-- How control leaves a routine behind its last action. -/
inductive Exit where
  /-- It has left already, by a divert. -/
  | diverted
  /-- It goes on with the next segment. -/
  | next (name : String)
  /-- The program ends. -/
  | stop
deriving DecidableEq, Repr

/-- The code of a segment. -/
structure Routine where
  name : String
  body : List Action
  exit : Exit
deriving Repr

/-! ### Weights -/

namespace Statement

mutual

/-- The number of statements in a statement, itself included. -/
def weight : Statement → Nat
  | conditional _ consequent alternate => listWeight consequent + listWeight alternate + 1
  | _ => 1

/-- The number of statements in a block. -/
def listWeight : List Statement → Nat
  | [] => 0
  | stmt :: stmts => weight stmt + listWeight stmts

end

/-- No statement is without weight. -/
theorem weight_pos (stmt : Statement) : 0 < stmt.weight := by
  cases stmt <;> simp [weight]

end Statement

namespace Step

/-- The number of statements in steps, where a menu counts as one. -/
def listWeight : List Step → Nat
  | [] => 0
  | plain stmt :: steps => stmt.weight + listWeight steps
  | menu _ :: steps => 1 + listWeight steps

theorem listWeight_consChoice_le (choice : Statement) (steps : List Step) :
    listWeight (consChoice choice steps) ≤ 1 + listWeight steps := by
  unfold consChoice
  split <;> simp [listWeight]

/-- **Grouping adds no weight.** -/
theorem listWeight_group_le (stmts : List Statement) :
    listWeight (group stmts) ≤ Statement.listWeight stmts := by
  induction stmts with
  | nil => simp [group, listWeight, Statement.listWeight]
  | cons stmt stmts ih =>
    have hpos := stmt.weight_pos
    rw [group, Statement.listWeight]
    split
    · have hle := listWeight_consChoice_le stmt (group stmts)
      omega
    · rw [listWeight]
      omega

end Step

/-! ### Lowering -/

namespace Action

mutual

/-- The actions of a block, with slots from `slot` on, and the first slot that is left. -/
def ofBlock (slot : Nat) (stmts : List Statement) : Except Error (List Action × Nat) :=
  ofSteps slot (Step.group stmts)
termination_by 3 * Statement.listWeight stmts + 2
decreasing_by
  have hle := Step.listWeight_group_le stmts
  omega

/-- The actions of steps. -/
def ofSteps (slot : Nat) (steps : List Step) : Except Error (List Action × Nat) :=
  match steps with
  | [] => .ok ([], slot)
  | .menu choices :: rest =>
    match ofSteps (slot + 1) rest with
    | .error e => .error e
    | .ok (actions, free) => .ok (.menu slot choices :: actions, free)
  | .plain stmt :: rest =>
    match ofStatement slot stmt with
    | .error e => .error e
    | .ok (action, slot') =>
      match ofSteps slot' rest with
      | .error e => .error e
      | .ok (actions, free) => .ok (action :: actions, free)
termination_by 3 * Step.listWeight steps + 1
decreasing_by
  · -- behind a menu
    simp only [Step.listWeight]
    omega
  · -- a statement
    simp only [Step.listWeight]
    omega
  · -- behind a statement
    have hpos := stmt.weight_pos
    simp only [Step.listWeight]
    omega

/-- The action of a statement that is no choice. -/
def ofStatement (slot : Nat) (stmt : Statement) : Except Error (Action × Nat) :=
  match stmt with
  | .divert target => .ok (.leave target, slot)
  | .speech actor line => .ok (.say actor line, slot)
  | .call name args => .ok (.call name args, slot)
  | .script text => .ok (.code text, slot)
  | .conditional conditions consequent alternate =>
    match ofBlock slot consequent with
    | .error e => .error e
    | .ok (first, slot') =>
      match ofBlock slot' alternate with
      | .error e => .error e
      | .ok (second, free) => .ok (.branch conditions first second, free)
  | .choice _ _ _ => .error (.internal .choiceOutsideMenu)
  | .offer _ => .error (.internal .choiceOutsideMenu)
termination_by 3 * stmt.weight
decreasing_by
  all_goals simp only [Statement.weight]
  all_goals omega

end

end Action

namespace Routine

/-- Whether a block ends with a divert. -/
def endsWithDivert (stmts : List Statement) : Bool :=
  match stmts.getLast? with
  | some (.divert _) => true
  | _ => false

/-- How control leaves a segment: at its end it goes on with the segment `next`, if there is one. -/
def exitOf (children : List Statement) (next : Option String) : Exit :=
  if endsWithDivert children then .diverted
  else
    match next with
    | some name => .next name
    | none => .stop

/-- The routine of a segment with slots from `slot` on, and the first slot that is left. -/
def ofSegment (segment : Segment) (next : Option String) (slot : Nat) :
    Except Error (Routine × Nat) :=
  match Action.ofBlock slot segment.children with
  | .error e => .error e
  | .ok (body, free) => .ok (⟨segment.name, body, exitOf segment.children next⟩, free)

/-- The routines of segments in order, with slots from `slot` on. -/
def ofSegments (slot : Nat) : List Segment → Except Error (List Routine)
  | [] => .ok []
  | segment :: rest =>
    match ofSegment segment (rest.head?.map (·.name)) slot with
    | .error e => .error e
    | .ok (routine, free) =>
      match ofSegments free rest with
      | .error e => .error e
      | .ok routines => .ok (routine :: routines)

end Routine

end Dialogue
