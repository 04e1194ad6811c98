/-!
# Positions and reports

A position names a character of a script: the number of its line, and the number of characters in
front of it on that line.  Both count from zero; messages count from one.

A report is what a user is told when a script is refused: which kind of mistake it is, what is
wrong, and where.  It carries its wording as a text, so that it can be shown, stored and compared
without knowing the stage that made it; the stages themselves work with typed causes
(`Dialogue.Error`).
-/

namespace Dialogue

/-! ### Positions -/

/-- A line and a column of a script, counted from zero. -/
structure Position where
  line : Nat
  column : Nat
deriving DecidableEq, Repr

/-- A position as messages name it. -/
def Position.text (p : Position) : String :=
  "line: " ++ Nat.repr (p.line + 1) ++ ", column: " ++ Nat.repr (p.column + 1)

/-! ### Reports -/

/-- A refusal in words. -/
inductive Report where
  /-- A character of the script cannot be read. -/
  | lexical (detail : String) (position : Position)
  /-- The tokens of the script do not fit together. -/
  | syntactic (detail : String) (position : Position)
  /-- The compiler reached a state that its own invariants rule out. -/
  | internal (detail : String)
deriving DecidableEq, Repr

namespace Report

/-- What is wrong, without the place. -/
def detail : Report → String
  | lexical d _ => d
  | syntactic d _ => d
  | internal d => d

/-- Where it is wrong; an internal failure has no place in the script. -/
def position? : Report → Option Position
  | lexical _ p => some p
  | syntactic _ p => some p
  | internal _ => none

/-- The whole message. -/
def text : Report → String
  | lexical d p => d ++ " at " ++ p.text
  | syntactic d p => d ++ " at " ++ p.text
  | internal d => "internal error: " ++ d

end Report

/-- A report together with the name of the script it is about. -/
structure Diagnostic where
  name : String
  report : Report
deriving DecidableEq, Repr

/-- The message of a diagnostic: the script's name in front of the report. -/
def Diagnostic.text (d : Diagnostic) : String :=
  d.name ++ ": " ++ d.report.text

end Dialogue
