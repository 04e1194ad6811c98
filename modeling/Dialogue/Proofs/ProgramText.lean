import Dialogue.Proofs.JsonReading
import Dialogue.Proofs.Program

/-!
# The text of a program

How the text of a program is read.  Its lines are cut into words, texts in quotes and single marks.
A line goes on as long as a bracket is open.  What encloses what is told by the indentation alone: a
line holds the lines below it that are indented deeper, all of them by the same amount, up to the
next one that is not.  Blank lines have no meaning.

`readProgram` answers with the procedures behind the dispatcher `main`, and only if every line of
them is a command of the language.  The choices of a menu are JSON records.
-/

namespace Dialogue

open Text

/-! ### Lines -/

/-- The indentation of a line and its atoms. -/
def readLine (l : List Char) : Option (Nat × List Atom) :=
  (atoms l).map fun as => ((l.takeWhile (· == ' ')).length, as)

/-! ### Lines that go on -/

/-- What an atom adds to the number of open brackets. -/
def Atom.bracket : Atom → Int
  | mark c =>
    if c = '(' ∨ c = '[' ∨ c = '\x7b' then 1 else if c = ')' ∨ c = ']' ∨ c = '\x7d' then -1 else 0
  | _ => 0

/-- The number of brackets that are open behind atoms. -/
def openBrackets : List Atom → Int
  | [] => 0
  | a :: as => a.bracket + openBrackets as

/-- Puts lines together as long as a bracket is open; `pending` is a line that goes on. -/
def joinLines (pending : Option (Nat × List Atom)) :
    List (Nat × List Atom) → Option (List (Nat × List Atom))
  | [] => if pending.isNone then some [] else none
  | (n, as) :: rest =>
    let line := match pending with
      | none => (n, as)
      | some (m, front) => (m, front ++ as)
    if openBrackets line.2 = 0 then (joinLines none rest).map (line :: ·)
    else joinLines (some line) rest

/-! ### Indentation -/

/-- A line and the lines that it holds. -/
inductive Tree where
  | node (indent : Nat) (atoms : List Atom) (children : List Tree)

def Tree.indent : Tree → Nat
  | node indent _ _ => indent

/-- All trees are indented alike. -/
def Tree.aligned : List Tree → Bool
  | [] => true
  | t :: ts => ts.all (·.indent == t.indent)

/-- The trees of lines: a line holds what follows it and is indented deeper. -/
def forest : List (Nat × List Atom) → Option (List Tree)
  | [] => some []
  | (n, as) :: rest =>
    match forest rest with
    | none => none
    | some roots =>
      if Tree.aligned (roots.takeWhile (n < ·.indent)) then
        some (.node n as (roots.takeWhile (n < ·.indent)) :: roots.dropWhile (n < ·.indent))
      else none

/-! ### Commands -/

/-- What the line of a tree says. -/
inductive Head where
  | leaf (command : Command)
  | if_ (test : Test)
  | else_

/-- A test, up to the colon behind it. -/
def readTest : List Atom → Option Test
  | [.word function, .mark '(', .text condition, .mark ')', .mark ':'] =>
    if function = "eval_cond" then some (.holds condition) else none
  | .word function :: .mark '(' :: .text condition :: .mark ')' :: .mark '&' :: .mark '&' :: rest =>
    if function = "eval_cond" then (readTest rest).map (.both (.holds condition)) else none
  | [.word name, .mark '!', .mark '=', .word null, .mark ':'] =>
    if null = "null" then some (.answered name) else none
  | _ => none

/-- The command of a call, behind its first word. -/
def readCall : List Atom → Option Head
  | .mark '(' :: .text name :: .mark ',' :: rest =>
    match Json.take rest with
    | some (.list items, [.mark ')']) =>
      (items.mapM Json.text?).map fun args => .leaf (.call name args)
    | _ => none
  | _ => none

/-- The declaration of a menu's answer, behind its first word. -/
def readMenu : List Atom → Option Head
  | .word name :: .mark '=' :: .word yield :: .word function :: .mark '(' :: rest =>
    if yield = "yield" ∧ function = "menu" then
      match Json.take rest with
      | some (.list items, [.mark ')']) =>
        (items.mapM Statement.ofChoiceJson?).map fun choices => .leaf (.menu name choices)
      | _ => none
    else none
  | _ => none

/-- What a line says. -/
def readHead : List Atom → Option Head
  | .word first :: rest =>
    if first = "pass" then if rest = [] then some (.leaf .pass) else none
    else if first = "sayLine" then
      match rest with
      | [.mark '(', .word actor, .mark ',', .text line, .mark ')'] => some (.leaf (.say actor line))
      | _ => none
    else if first = "call_macro" then readCall rest
    else if first = "var" then readMenu rest
    else if first = "return" then
      match rest with
      | [.text label] => some (.leaf (.give (.text label)))
      | [.word name] =>
        some (.leaf (.give (if name = "null" then .null else .stored name)))
      | _ => none
    else if first = "if" then (readTest rest).map .if_
    else if first = "else" then if rest = [.mark ':'] then some .else_ else none
    else none
  | _ => none

/-- Commands that stand next to each other, behind the branch of an `else` that comes first. -/
abbrev Items := Option (List Command) × List Command

/-- A block: at least one command, and no `else` without an `if` in front. -/
def Items.block : Items → Option (List Command)
  | (none, command :: commands) => some (command :: commands)
  | _ => none

/-- The commands of trees.  An `else` goes to the `if` in front of it. -/
def readItems : List Tree → Option Items
  | [] => some (none, [])
  | .node _ as children :: rest =>
    match readItems rest, readHead as, readItems children with
    | some (none, commands), some (.leaf command), _ =>
      if children.isEmpty then some (none, command :: commands) else none
    | some (otherwise, commands), some (.if_ test), some items =>
      items.block.map fun yes => (none, .branch test yes (otherwise.getD []) :: commands)
    | some (none, commands), some .else_, some items =>
      items.block.map fun no => (some no, commands)
    | _, _, _ => none

/-! ### Programs -/

/-- The procedure of a tree. -/
def readProcedure : Tree → Option Procedure
  | .node _ [.word func, .word name, .mark '(', .mark ')', .mark '-', .mark '>', .word string,
      .mark ':'] children =>
    if func = "func" ∧ string = "String" then
      match readItems children with
      | some items => items.block.map fun body => ⟨name, body⟩
      | none => none
    else none
  | _ => none

/-- The line of the dispatcher. -/
def mainAtoms : List Atom :=
  [.word "func", .word "main", .mark '(', .word "init_state", .mark ')', .mark ':']

/-- The procedures of trees, behind the dispatcher. -/
def readTrees : List Tree → Option (List Procedure)
  | .node _ as _ :: rest => if as = mainAtoms then rest.mapM readProcedure else none
  | [] => none

/-- **The procedures of a program**, from its text. -/
def readProgram (program : String) : Option (List Procedure) :=
  match (Text.lines program.toList).mapM readLine with
  | none => none
  | some physical =>
    match joinLines none physical with
    | none => none
    | some lines =>
      match forest (lines.filter fun line => !line.2.isEmpty) with
      | none => none
      | some roots => if roots.all (·.indent == 0) then readTrees roots else none

end Dialogue
