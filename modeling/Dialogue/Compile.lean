import Dialogue.Routine.Code
import Dialogue.Script.Parser
import Dialogue.Token.Lexer

/-!
# Compiling a script

The way from the text of a script to the text of a program, or to its segments.  A script is read
as a whole before its tokens are looked at, so a character that cannot be read is reported before
anything that is wrong with the tokens, wherever the two stand.

The name of a script is used in diagnostics only.
-/

namespace Dialogue

/-- The number of spaces for each level of indentation, unless another one is asked for. -/
def defaultWidth : Nat := 4

/-- The number of spaces for each level of indentation in the JSON of a script. -/
def jsonWidth : Nat := 2

/-! ### With a log -/

/-- The segments of a script, with the events on the way. -/
def segmentsLogged (source : String) : Logged (List Segment) :=
  (Logged.record (fun tokens => .tokenized (Text.scriptLines source).length tokens.length)
    (tokenize source)).andThen parseLogged

/-- The program of segments, with the event that it is written. -/
def generateLogged (width : Nat) (segments : List Segment) : Logged String :=
  .record (fun code => .generated code.utf8ByteSize segments.length) (generate width segments)

/-- The program of a script, with the events on the way. -/
def compileLogged (width : Nat) (source : String) : Logged String :=
  (segmentsLogged source).andThen (generateLogged width)

/-! ### By name -/

/-- An outcome for the script `name`. -/
def diagnosed {α : Type} (name : String) (result : Except Error α) : Except Diagnostic α :=
  result.mapError fun e => ⟨name, e.report⟩

/-- The segments of a script. -/
def readScript (name source : String) : Except Diagnostic (List Segment) :=
  diagnosed name (segmentsLogged source).result

/-- The segments of a script as JSON text. -/
def scriptJson (name source : String) : Except Diagnostic String :=
  (readScript name source).map fun segments =>
    (Json.list (segments.map Segment.toJson)).pretty jsonWidth

/-- The program of a script. -/
def compile (width : Nat) (name source : String) : Except Diagnostic String :=
  diagnosed name (compileLogged width source).result

end Dialogue
