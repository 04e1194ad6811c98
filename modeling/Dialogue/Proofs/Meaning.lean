import Dialogue.Routine

/-!
# The meaning of a script

What the player of a segment sees.  A segment acts on its *history*, the list of what has happened
so far, and ends with the label of the segment to go on with.  Whatever a script cannot decide by
itself is decided by an *oracle*, which knows the history: whether a condition holds, and what the
player answers to a menu.

Statements run in order.  A divert stops the segment with its target.  A conditional tests its
conditions one by one, up to the first that does not hold, and runs its first branch if all of them
hold and its second branch otherwise.  Choices are presented run by run: each maximal run of
adjacent choices of a block is one menu, and an answer to it stops the segment.

`Statement.hasScript` tells scripts with code of the host platform, which has no meaning here.
-/

namespace Dialogue

/-! ### Histories and oracles -/

/-- Something that happens while a segment runs. -/
inductive Deed where
  | said (actor line : String)
  | called (name : String) (args : List String)
  /-- A condition is tested. -/
  | tested (condition : String)
  /-- A menu is presented. -/
  | presented (choices : List Statement)

/-- What has happened, in order. -/
abbrev History := List Deed

/-- The decisions that a script leaves open. -/
structure Oracle where
  holds : History → String → Bool
  /-- The answer to a menu, if it is not null. -/
  answer : History → List Statement → Option String

/-- The history after a part of a segment, and the label with which it stops the segment, if it
does. -/
abbrev Played := History × Option String

/-- Goes on, unless the segment has been stopped. -/
def Played.onward (p : Played) (f : History → Played) : Played :=
  match p.2 with
  | some label => (p.1, some label)
  | none => f p.1

namespace Oracle

/-- Tests conditions up to the first that does not hold, and tells whether all hold. -/
def holdsAll (o : Oracle) : List String → History → History × Bool
  | [], h => (h, true)
  | c :: cs, h =>
    if o.holds h c then o.holdsAll cs (h ++ [.tested c]) else (h ++ [.tested c], false)

/-- Presents a menu; an answer stops the segment. -/
def present (o : Oracle) (choices : List Statement) (h : History) : Played :=
  (h ++ [.presented choices], o.answer h choices)

end Oracle

/-! ### Statements -/

namespace Statement

theorem listWeight_dropWhile_le (p : Statement → Bool) (stmts : List Statement) :
    listWeight (stmts.dropWhile p) ≤ listWeight stmts := by
  induction stmts with
  | nil => simp
  | cons stmt stmts ih =>
    rw [List.dropWhile_cons]
    split
    · rw [listWeight]
      omega
    · exact Nat.le_refl _

mutual

/-- Runs a statement. -/
def play (o : Oracle) (stmt : Statement) (h : History) : Played :=
  match stmt with
  | divert target => (h, some target)
  | speech actor line => (h ++ [.said actor line], none)
  | call name args => (h ++ [.called name args], none)
  | conditional conditions consequent alternate =>
    if (o.holdsAll conditions h).2 then playBlock o consequent (o.holdsAll conditions h).1
    else playBlock o alternate (o.holdsAll conditions h).1
  | choice line conditions target => o.present [choice line conditions target] h
  | offer o' => o.present [offer o'] h
  | script _ => (h, none)
termination_by 2 * stmt.weight
decreasing_by
  all_goals simp only [weight]
  all_goals omega

/-- Runs the statements of a block. -/
def playBlock (o : Oracle) (stmts : List Statement) (h : History) : Played :=
  match stmts with
  | [] => (h, none)
  | stmt :: rest =>
    if stmt.isChoice then
      (o.present (stmt :: rest.takeWhile isChoice) h).onward fun h' =>
        playBlock o (rest.dropWhile isChoice) h'
    else (play o stmt h).onward fun h' => playBlock o rest h'
termination_by 2 * listWeight stmts + 1
decreasing_by
  · -- behind a menu
    have hle := listWeight_dropWhile_le isChoice rest
    have hpos := stmt.weight_pos
    simp only [listWeight]
    omega
  · -- a statement
    simp only [listWeight]
    omega
  · -- behind a statement
    have hpos := stmt.weight_pos
    simp only [listWeight]
    omega

end

mutual

/-- Whether a statement holds code of the host platform, at any depth. -/
def hasScript : Statement → Bool
  | script _ => true
  | conditional _ consequent alternate => listHasScript consequent || listHasScript alternate
  | _ => false

/-- Whether a block holds code of the host platform, at any depth. -/
def listHasScript : List Statement → Bool
  | [] => false
  | stmt :: stmts => hasScript stmt || listHasScript stmts

end

end Statement

/-- **The meaning of a segment**: runs it, and goes on with the segment `next` at its end. -/
def Segment.play (o : Oracle) (s : Segment) (next : Option String) (h : History) : Played :=
  (Statement.playBlock o s.children h).onward fun h' => (h', next)

end Dialogue
