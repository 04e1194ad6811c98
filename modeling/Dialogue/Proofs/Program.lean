import Dialogue.Proofs.Meaning

/-!
# Programs

The language of generated programs, as far as routines use it, and what its programs do.  A
procedure is a block of commands that ends by returning a label.  Commands act on the history of
the player, as statements of a script do, and on the variables of the procedure.

A command may fail: a variable has to be declared before it is used, and a procedure has to return.
So `Procedure.run` has a result only for programs that do nothing undefined.
-/

namespace Dialogue

/-! ### Syntax -/

/-- The test of a conditional command. -/
inductive Test where
  | holds (condition : String)
  /-- The value of a variable is not null. -/
  | answered (name : String)
  | both (first second : Test)
deriving Repr

/-- What a procedure returns. -/
inductive Value where
  | null
  | text (label : String)
  | stored (name : String)
deriving Repr

inductive Command where
  | pass
  | say (actor line : String)
  | call (name : String) (args : List String)
  /-- Declares a variable whose value is the answer to a menu. -/
  | menu (name : String) (choices : List Statement)
  | give (value : Value)
  | branch (test : Test) (yes no : List Command)
deriving Repr

structure Procedure where
  name : String
  body : List Command
deriving Repr

/-! ### Execution -/

/-- The values of the declared variables. -/
abbrev Env := String → Option (Option String)

/-- A further variable, or a new value for one that is declared. -/
def Env.declare (env : Env) (name : String) (value : Option String) : Env :=
  fun name' => if name' = name then some value else env name'

theorem Env.declare_self (env : Env) (name : String) (value : Option String) :
    env.declare name value name = some value := by
  rw [declare, if_pos rfl]

/-- How control leaves a command. -/
inductive Outcome where
  | onward (env : Env) (h : History)
  | returned (label : Option String) (h : History)

/-- The value of a test, and the history after it: what is behind a part that fails is not looked
at. -/
def Test.eval (o : Oracle) (env : Env) : Test → History → Option (History × Bool)
  | holds condition, h => some (h ++ [.tested condition], o.holds h condition)
  | answered name, h => (env name).map fun value => (h, value.isSome)
  | both first second, h =>
    match first.eval o env h with
    | none => none
    | some (h', false) => some (h', false)
    | some (h', true) => second.eval o env h'

def Value.eval (env : Env) : Value → Option (Option String)
  | null => some none
  | text label => some (some label)
  | stored name => env name

namespace Command

mutual

def exec (o : Oracle) : Command → Env → History → Option Outcome
  | pass, env, h => some (.onward env h)
  | say actor line, env, h => some (.onward env (h ++ [.said actor line]))
  | call name args, env, h => some (.onward env (h ++ [.called name args]))
  | menu name choices, env, h =>
    some (.onward (env.declare name (o.answer h choices)) (h ++ [.presented choices]))
  | give value, env, h => (value.eval env).map fun label => .returned label h
  | branch test yes no, env, h =>
    match test.eval o env h with
    | none => none
    | some (h', true) => execBlock o yes env h'
    | some (h', false) => execBlock o no env h'

def execBlock (o : Oracle) : List Command → Env → History → Option Outcome
  | [], env, h => some (.onward env h)
  | command :: rest, env, h =>
    match exec o command env h with
    | none => none
    | some (.returned label h') => some (.returned label h')
    | some (.onward env' h') => execBlock o rest env' h'

end

end Command

/-- **What a procedure does**, from a history on: the history after it and the label it returns. -/
def Procedure.run (o : Oracle) (p : Procedure) (h : History) : Option Played :=
  match Command.execBlock o p.body (fun _ => none) h with
  | some (.returned label h') => some (h', label)
  | _ => none

end Dialogue
