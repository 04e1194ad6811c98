/-!
# Scripts

The tree that a script denotes: segments of statements.  A *choice* is a statement that offers the
player a line; adjacent choices are presented together.  There are two forms of it.  A plain choice
has its conditions on its own line.  An *offer* selects its line by `if`, `elif` and `else`: each
branch holds one line, a further selection, or nothing.
-/

namespace Dialogue

/-- The line that a choice offers, or a selection between two such lines, each of which may be
missing. -/
inductive Offer where
  | line (text : String) (divert : Option String)
  | split (condition : String) (consequent alternate : Option Offer)
deriving Repr

/-- A statement. -/
inductive Statement where
  /-- Leave the segment for another one. -/
  | divert (target : String)
  /-- Words of a speaker. -/
  | speech (actor line : String)
  /-- A choice that is offered when all its conditions hold. -/
  | choice (line : String) (conditions : List String) (divert : Option String)
  /-- A choice whose line is selected when it is offered. -/
  | offer (offer : Offer)
  /-- The first branch when all conditions hold, else the second. -/
  | conditional (conditions : List String) (consequent alternate : List Statement)
  /-- A call of a named routine of the host platform. -/
  | call (name : String) (args : List String)
  /-- Code of the host platform. -/
  | script (code : String)
deriving Repr

/-- Whether a statement is a choice of either form. -/
def Statement.isChoice : Statement → Bool
  | choice _ _ _ => true
  | offer _ => true
  | _ => false

/-- A named part of a script. -/
structure Segment where
  name : String
  children : List Statement
deriving Repr

namespace Segment

/-- Whether a segment is the one in front of the first header. -/
def isAnonymous (s : Segment) : Bool :=
  s.name == ""

/-- A segment with one more statement at its end. -/
def push (s : Segment) (stmt : Statement) : Segment :=
  { s with children := s.children ++ [stmt] }

end Segment

end Dialogue
