import Dialogue.Routine
import Dialogue.Script.Json

/-!
# The code of a program

The lines of the generated program: a dispatcher, which runs the routine of the current state until
one of them answers with null, and then the routines.  The variable of a menu is named after its
slot, and its choices are written as JSON records, one after the other, each with a comma behind
it.

A block without actions is written as `pass`.  The second branch of a conditional is written only if
it has actions.
-/

namespace Dialogue

/-! ### Parts of a line -/

namespace Action

/-- The test of a conditional: all conditions hold. -/
def test (conditions : List String) : String :=
  " && ".intercalate (conditions.map fun c => "eval_cond(" ++ Text.quote c ++ ")")

/-- The variable of the menu in a slot. -/
def variableName (slot : Nat) : String :=
  "__genvar_" ++ Nat.repr slot

/-- The records of choices, from `depth` on. -/
def choiceLines (depth : Nat) : List Statement → List Line
  | [] => []
  | choice :: rest => choice.toJson.layout depth "" "," ++ choiceLines depth rest

/-- A menu: present the choices, then leave with the answer unless it is null. -/
def menuLines (depth slot : Nat) (choices : List Statement) : List Line :=
  ⟨depth, "var " ++ variableName slot ++ " = yield menu(["⟩ ::
    (choiceLines (depth + 1) choices ++
      [⟨depth, "])"⟩, ⟨depth, "if " ++ variableName slot ++ " != null:"⟩,
       ⟨depth + 1, "return " ++ variableName slot⟩])

/-- The lines of a block, or `pass` if it has none. -/
def orPass (depth : Nat) (lines : List Line) : List Line :=
  if lines.isEmpty then [⟨depth, "pass"⟩] else lines

/-! ### Actions -/

mutual

/-- The lines of an action. -/
def lines (depth : Nat) : Action → List Line
  | say actor line => [⟨depth, "sayLine(" ++ actor ++ ", " ++ Text.quote line ++ ")"⟩]
  | leave target => [⟨depth, "return " ++ Text.quote target⟩]
  | call name args =>
    [⟨depth, "call_macro(" ++ Text.quote name ++ ", [" ++ ",".intercalate (args.map Text.quote) ++
      "])"⟩]
  | code text => [⟨depth, text⟩]
  | menu slot choices => menuLines depth slot choices
  | branch conditions consequent alternate =>
    ⟨depth, "if " ++ test conditions ++ ":"⟩ ::
      (orPass (depth + 1) (listLines (depth + 1) consequent) ++
        if alternate.isEmpty then []
        else ⟨depth, "else:"⟩ :: listLines (depth + 1) alternate)

/-- The lines of actions, one after the other. -/
def listLines (depth : Nat) : List Action → List Line
  | [] => []
  | action :: rest => lines depth action ++ listLines depth rest

end

end Action

/-! ### Routines and programs -/

namespace Routine

/-- The name of the function of a segment. -/
def entryName (segment : String) : String :=
  "__knot__" ++ segment

/-- The line by which a routine ends, unless it has left already. -/
def exitLines : Exit → List Line
  | .diverted => []
  | .next name => [⟨1, "return " ++ Text.quote name⟩]
  | .stop => [⟨1, "return null"⟩]

/-- The lines of a routine, two empty ones at the end. -/
def lines (r : Routine) : List Line :=
  ⟨0, "func " ++ entryName r.name ++ "() -> String:"⟩ ::
    (Action.orPass 1 (Action.listLines 1 r.body) ++ exitLines r.exit ++ [.empty, .empty])

/-- The lines of routines, one after the other. -/
def listLines : List Routine → List Line
  | [] => []
  | r :: rest => r.lines ++ listLines rest

/-- The cases of the dispatcher, one for each segment. -/
def caseLines : List String → List Line
  | [] => []
  | name :: rest =>
    ⟨3, Text.quote name ++ ":"⟩ :: ⟨4, "state = yield " ++ entryName name ++ "()"⟩ ::
      caseLines rest

/-- The dispatcher, two empty lines at the end. -/
def dispatcherLines (names : List String) : List Line :=
  [⟨0, "func main(init_state):"⟩, ⟨1, "var state = init_state"⟩, ⟨1, "while state != null:"⟩,
   ⟨2, "match state:"⟩] ++ caseLines names ++ [.empty, .empty]

end Routine

/-- The lines of the program for segments. -/
def programLines (segments : List Segment) : Except Error (List Line) :=
  match Routine.ofSegments 0 segments with
  | .error e => .error e
  | .ok routines =>
    .ok (Routine.dispatcherLines (segments.map (·.name)) ++ Routine.listLines routines)

/-- The program for segments, with `width` spaces for each level of indentation. -/
def generate (width : Nat) (segments : List Segment) : Except Error String :=
  match programLines segments with
  | .error e => .error e
  | .ok lines => .ok (Line.terminated width lines)

end Dialogue
