import Dialogue.Report
import Dialogue.Text.Hidden

/-!
# Tokens

The words of a script.  A token has a kind, with the text that it carries, and the position of its
first character.  `Token.Kind.describe` is the wording by which messages refer to a token; it
depends on the kind alone.
-/

namespace Dialogue

/-! ### Keywords -/

/-- The words that build conditionals. -/
inductive Keyword where
  | if_
  | elif
  | else_
  | endif
deriving DecidableEq, Repr

namespace Keyword

/-- The spelling of a keyword. -/
def text : Keyword → String
  | if_ => "if"
  | elif => "elif"
  | else_ => "else"
  | endif => "endif"

/-- The keyword with a given spelling. -/
def ofText? (word : String) : Option Keyword :=
  if word = "if" then some if_
  else if word = "elif" then some elif
  else if word = "else" then some else_
  else if word = "endif" then some endif
  else none

/-- Exactly the four spellings are keywords. -/
theorem ofText?_eq_some_iff {word : String} {k : Keyword} :
    ofText? word = some k ↔ word = k.text := by
  constructor
  · intro h
    unfold ofText? at h
    split at h
    · cases h; assumption
    split at h
    · cases h; assumption
    split at h
    · cases h; assumption
    split at h
    · cases h; assumption
    · cases h
  · rintro rfl
    cases k <;> simp [ofText?, text]

end Keyword

/-! ### Tokens -/

/-- What a token says. -/
inductive Token.Kind where
  /-- A string literal, with the text it denotes. -/
  | string (value : String)
  /-- The line that starts a segment. -/
  | header (name : String)
  /-- A jump to another segment. -/
  | divert (target : String)
  /-- The star in front of a choice. -/
  | marker
  /-- A condition, exactly as it stands between its brackets. -/
  | condition (expr : String)
  /-- Code of the host platform, without the blanks at its ends. -/
  | script (code : String)
  /-- The name of a speaker. -/
  | actor (name : String)
  | keyword (word : Keyword)
  /-- An identifier that is no keyword. -/
  | symbol (value : String)
deriving DecidableEq, Repr

/-- A token and the position of its first character. -/
structure Token where
  kind : Token.Kind
  position : Position
deriving DecidableEq, Repr

/-- The line a token stands on. -/
def Token.line (t : Token) : Nat :=
  t.position.line

/-- How messages refer to a token. -/
def Token.Kind.describe : Token.Kind → String
  | string value => "string " ++ Text.shown value
  | header name => "header `" ++ name ++ "`"
  | divert target => "divert to `" ++ target ++ "`"
  | marker => "choice marker `*`"
  | condition expr => "condition `[" ++ expr ++ "]`"
  | script _ => "inline script"
  | actor name => "actor line `" ++ name ++ ":`"
  | keyword word => "`" ++ word.text ++ "`"
  | symbol value => "symbol `" ++ value ++ "`"

end Dialogue
