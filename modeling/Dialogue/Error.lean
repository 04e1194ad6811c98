import Dialogue.Report
import Dialogue.Token

/-!
# Errors

The causes for which a script is refused, one constructor for each.  The wording of every message
stands in the three functions `LexicalFault.detail`, `SyntaxFault.detail` and
`InternalFault.detail`, and `Error.report` joins a cause with its place.

Internal faults are kept as outcomes of their own: the parser and the generator check the invariants
they rely on, and whether a check can ever fail is a theorem about them, not an assumption.
-/

namespace Dialogue

/-! ### Causes -/

/-- Why a character of a script cannot be read. -/
inductive LexicalFault where
  /-- A character that starts a token elsewhere, but not here. -/
  | unexpected (c : Char)
  /-- A character that starts no token at all. -/
  | unknown (c : Char)
  /-- A literal, a condition or a script block without its end. -/
  | unterminated (opening : Char)
  /-- A string literal that denotes no text. -/
  | invalidString
  /-- A condition of blanks only. -/
  | emptyCondition
  /-- A script block of blanks only. -/
  | emptyScript
deriving DecidableEq, Repr

/-- What is wrong at a character. -/
def LexicalFault.detail : LexicalFault → String
  | unexpected c => "unexpected `" ++ c.toString ++ "`"
  | unknown c => "unexpected character `" ++ c.toString ++ "`"
  | unterminated c => "unterminated `" ++ c.toString ++ "`"
  | invalidString => "invalid escape sequence in string literal"
  | emptyCondition => "empty condition"
  | emptyScript => "empty script block"

/-- Why the tokens of a script do not fit together. -/
inductive SyntaxFault where
  /-- A token that starts no statement. -/
  | unexpected (found : Token.Kind)
  /-- A speaker without words on the same line. -/
  | missingSpeech (actor : String)
  /-- An argument that is neither a symbol nor a string. -/
  | badArgument (found : Token.Kind)
  /-- A keyword without its condition. -/
  | missingCondition (word : Keyword)
  | elifWithoutIf
  | elifAfterElse
  | elseWithoutIf
  | duplicateElse
  | endifWithoutIf
  /-- A conditional that a header or the end of the script cuts off. -/
  | unclosedConditional
  /-- A choice marker followed by something else than a choice. -/
  | badChoice (found : Option Token.Kind)
  /-- A branch of a conditional choice that is no choice. -/
  | badBody (found : Token.Kind)
  /-- A conditional choice that ends inside a branch. -/
  | missingBody
  /-- A branch of a conditional choice that goes on after its choice. -/
  | badContinuation (found : Token.Kind)
  /-- A conditional choice that ends after a branch. -/
  | unclosedChoice
  /-- The last branch of a conditional choice is not closed. -/
  | missingEndif (found : Option Token.Kind)
deriving DecidableEq, Repr

/-- What is wrong with the tokens. -/
def SyntaxFault.detail : SyntaxFault → String
  | unexpected found => "unexpected " ++ found.describe
  | missingSpeech actor => "expected a string after `" ++ actor ++ ":`"
  | badArgument found => "macro argument must be a symbol or string, found " ++ found.describe
  | missingCondition word => "expected a condition after `" ++ word.text ++ "`"
  | elifWithoutIf => "no if continued by elif"
  | elifAfterElse => "elif after else"
  | elseWithoutIf => "no if continued by else"
  | duplicateElse => "duplicate else"
  | endifWithoutIf => "no if closed by endif"
  | unclosedConditional => "unclosed conditional"
  | badChoice none => "expected a string or `if` after `*`"
  | badChoice (some found) => "expected a string or `if` after `*`, found " ++ found.describe
  | badBody found => "invalid choice body: " ++ found.describe
  | missingBody => "unexpected end of input in choice"
  | badContinuation found => "expected `elif`, `else` or `endif`, found " ++ found.describe
  | unclosedChoice => "unclosed conditional choice"
  | missingEndif none => "expected `endif` before end of input"
  | missingEndif (some found) => "expected `endif`, found " ++ found.describe

/-- Which invariant of the compiler does not hold. -/
inductive InternalFault where
  /-- A statement reached a conditional whose branches are complete. -/
  | statementInClosedScope
  /-- The innermost conditional is complete when a keyword continues it. -/
  | keywordOnClosedScope (word : Keyword)
  /-- A choice reached the generator outside of a menu. -/
  | choiceOutsideMenu
deriving DecidableEq, Repr

/-- What went wrong inside. -/
def InternalFault.detail : InternalFault → String
  | statementInClosedScope => "node routed into a closed conditional scope"
  | keywordOnClosedScope word => word.text ++ " on a closed scope"
  | choiceOutsideMenu => "choice outside of a dialog group"

/-! ### Errors -/

/-- A cause and its place. -/
inductive Error where
  | lexical (fault : LexicalFault) (position : Position)
  | syntactic (fault : SyntaxFault) (position : Position)
  | internal (fault : InternalFault)
deriving DecidableEq, Repr

/-- An error in words. -/
def Error.report : Error → Report
  | lexical fault p => .lexical fault.detail p
  | syntactic fault p => .syntactic fault.detail p
  | internal fault => .internal fault.detail

end Dialogue
