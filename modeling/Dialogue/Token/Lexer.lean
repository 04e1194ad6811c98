import Dialogue.Error
import Dialogue.Text.Quoted

/-!
# Reading tokens

A script is read line by line, and nothing carries over from one line to the next.  Within a line
the reader looks at the first character that is left and decides what stands there: a *piece*,
which is either a gap (a blank or a comment) or a token.  A piece is given by the number of
characters it takes beyond its first, so a line is always cut into pieces that follow each other
without overlap, and every step makes the rest of the line shorter.

A header and a divert take all that is left of their line.  A header and a choice marker stand at
the very start of a line; `atStart` says that the reader is there.

A line ends at a line feed, and a carriage return directly before that line feed belongs to the
line end, not to the line.  Any other carriage return is an ordinary character of its line, also at
the end of a text that does not end with a line feed.  A line feed at the very end of a text starts
no further line, and the empty text has no lines at all.

Positions in a script count lines from zero, and columns within the lines that `Text.scriptLines`
returns: byte order marks in front of a script are not part of its first line.
-/

namespace Dialogue

/-! ### Lines of a text -/

namespace Text

/-- The lines of a text, without their ends. -/
def lines : List Char → List (List Char)
  | [] => []
  | '\n' :: cs => [] :: lines cs
  | '\r' :: '\n' :: cs => [] :: lines cs
  | c :: cs =>
    -- `c` is no part of a line end, so it starts the line that the rest goes on with
    match lines cs with
    | [] => [[c]]
    | l :: ls => (c :: l) :: ls

/-- The mark that some editors write in front of a text. -/
def byteOrderMark : Char := '\uFEFF'

/-- The lines of a script: those of its text, the first one without the byte order marks in front.
-/
def scriptLines (source : String) : List (List Char) :=
  match lines source.toList with
  | [] => []
  | first :: rest => first.dropWhile (· == byteOrderMark) :: rest

end Text

namespace Lexer

open Text

/-! ### Character classes -/

/-- The characters of an identifier: ASCII letters and the underscore. -/
def isNameChar (c : Char) : Bool :=
  c.isAlpha || c == '_'

/-- The characters of a segment's name: those of an identifier and the ASCII digits. -/
def isWordChar (c : Char) : Bool :=
  c.isAlphanum || c == '_'

/-- The characters that may follow a header or a divert on its line. -/
def isSpace (c : Char) : Bool :=
  c == ' ' || c == '\t'

/-! ### Headers and diverts -/

/-- The longest run of characters in `p` at the start of a text, if it has at least `least` of them,
and what follows it. -/
def run? (least : Nat) (p : Char → Bool) (cs : List Char) : Option (List Char × List Char) :=
  if least ≤ (cs.takeWhile p).length then some (cs.takeWhile p, cs.dropWhile p) else none

/-- The name in a header line: at least two equals signs, one blank, the name, blanks, at least two
equals signs, and then spaces and tabs up to the end. -/
def headerName? (line : List Char) : Option (List Char) :=
  match run? 2 (· == '=') line with
  | some (_, b :: rest) =>
    if isBlank b then
      match run? 1 isWordChar rest with
      | some (name, rest) =>
        match run? 1 isBlank rest with
        | some (_, rest) =>
          match run? 2 (· == '=') rest with
          | some (_, rest) => if rest.all isSpace then some name else none
          | none => none
        | none => none
      | none => none
    else none
  | _ => none

/-- The target of a divert: an arrow, one space, a word that starts with a letter, and then spaces
and tabs up to the end. -/
def divertTarget? : List Char → Option (List Char)
  | '-' :: '>' :: ' ' :: c :: rest =>
    if c.isAlpha && (rest.dropWhile isWordChar).all isSpace then
      some (c :: rest.takeWhile isWordChar)
    else none
  | _ => none

/-! ### Pieces of a line -/

/-- What stands at the start of the rest of a line, with the number of characters it takes beyond
the first. -/
inductive Piece where
  | gap (more : Nat)
  | token (kind : Token.Kind) (more : Nat)
deriving DecidableEq, Repr

/-- The text in front of the first `stop`, if there is one. -/
def upTo? (stop : Char) (cs : List Char) : Option (List Char) :=
  if cs.contains stop then some (cs.takeWhile (· != stop)) else none

/-- A string literal. -/
def stringPiece (text : List Char) : Except LexicalFault Piece :=
  match Quoted.literalLength? text with
  | none => .error (.unterminated '"')
  | some n =>
    match Quoted.decode? (text.take n) with
    | none => .error .invalidString
    | some value => .ok (.token (.string (String.ofList value)) (n - 1))

/-- A condition, from the character after its bracket. -/
def conditionPiece (cs : List Char) : Except LexicalFault Piece :=
  match upTo? ']' cs with
  | none => .error (.unterminated '[')
  | some expr =>
    if isBlankText expr then .error .emptyCondition
    else .ok (.token (.condition (String.ofList expr)) (expr.length + 1))

/-- A script block, from the character after its brace. -/
def scriptPiece (cs : List Char) : Except LexicalFault Piece :=
  match upTo? '\x7d' cs with
  | none => .error (.unterminated '\x7b')
  | some code =>
    if isBlankText code then .error .emptyScript
    else .ok (.token (.script (String.ofList (trim code))) (code.length + 1))

/-- An identifier: a speaker if a colon follows at once, else a keyword or a symbol. -/
def namePiece (c : Char) (cs : List Char) : Piece :=
  let name := String.ofList (c :: cs.takeWhile isNameChar)
  let more := (cs.takeWhile isNameChar).length
  if (cs.dropWhile isNameChar).head? = some ':' then .token (.actor name) (more + 1)
  else
    match Keyword.ofText? name with
    | some word => .token (.keyword word) more
    | none => .token (.symbol name) more

/-- The piece that starts with `c` and goes on in `cs`, the rest of the line. -/
def piece (atStart : Bool) (c : Char) (cs : List Char) : Except LexicalFault Piece :=
  if isBlank c then .ok (.gap 0)
  else if c = '/' then
    if cs.head? = some '/' then .ok (.gap cs.length) else .error (.unexpected '/')
  else if c = '"' then stringPiece (c :: cs)
  else if c = '=' then
    match if atStart then headerName? (c :: cs) else none with
    | some name => .ok (.token (.header (String.ofList name)) cs.length)
    | none => .error (.unexpected '=')
  else if c = '-' then
    match divertTarget? (c :: cs) with
    | some target => .ok (.token (.divert (String.ofList target)) cs.length)
    | none => .error (.unexpected '-')
  else if c = '[' then conditionPiece cs
  else if c = '\x7b' then scriptPiece cs
  else if c = '*' then
    if atStart && cs.head? == some ' ' then .ok (.token .marker 0) else .error (.unexpected '*')
  else if c.isLower then .ok (namePiece c cs)
  else .error (.unknown c)

/-! ### Lines and scripts -/

/-- The tokens of the rest of line number `line`, of which `column` characters have been read. -/
def lineTokens (line column : Nat) : List Char → Except Error (List Token)
  | [] => .ok []
  | c :: cs =>
    match piece (column == 0) c cs with
    | .error fault => .error (.lexical fault ⟨line, column⟩)
    | .ok (.gap more) => lineTokens line (column + 1 + more) (cs.drop more)
    | .ok (.token kind more) =>
      match lineTokens line (column + 1 + more) (cs.drop more) with
      | .error e => .error e
      | .ok tokens => .ok (⟨kind, ⟨line, column⟩⟩ :: tokens)
termination_by cs => cs.length
decreasing_by all_goals simp only [List.length_drop, List.length_cons]; omega

/-- The tokens of lines, the first of which has number `line`. -/
def linesTokens (line : Nat) : List (List Char) → Except Error (List Token)
  | [] => .ok []
  | l :: ls =>
    match lineTokens line 0 l with
    | .error e => .error e
    | .ok tokens =>
      match linesTokens (line + 1) ls with
      | .error e => .error e
      | .ok more => .ok (tokens ++ more)

end Lexer

/-- The tokens of a script. -/
def tokenize (source : String) : Except Error (List Token) :=
  Lexer.linesTokens 0 (Text.scriptLines source)

end Dialogue
