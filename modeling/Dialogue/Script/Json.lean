import Dialogue.Json
import Dialogue.Script

/-!
# Scripts as JSON

Every statement becomes a record whose field `type` names its form.  A missing divert or branch is
null, so the fields of a form are always the same ones, in the same order.
-/

namespace Dialogue

/-- A record of the given form. -/
def Json.tagged (form : String) (fields : List (String × Json)) : Json :=
  .record (("type", .text form) :: fields)

namespace Offer

mutual

/-- The record of an offer. -/
def toJson : Offer → Json
  | line text divert =>
    .tagged "unconditional_choice" [("line", .text text), ("divert", .ofText? divert)]
  | split condition consequent alternate =>
    .tagged "control_flow_choice"
      [("condition", .text condition), ("consequent", toJson? consequent),
       ("alternate", toJson? alternate)]

/-- The record of a branch, null if it offers nothing. -/
def toJson? : Option Offer → Json
  | none => .null
  | some o => toJson o

end

end Offer

namespace Statement

mutual

/-- The record of a statement. -/
def toJson : Statement → Json
  | divert target => .tagged "divert" [("target", .text target)]
  | speech actor line => .tagged "actor_line" [("actor", .text actor), ("line", .text line)]
  | choice line conditions target =>
    .tagged "simple_choice"
      [("line", .text line), ("conditions", .ofTexts conditions), ("divert", .ofText? target)]
  | offer o => o.toJson
  | conditional conditions consequent alternate =>
    .tagged "conditional"
      [("conditions", .ofTexts conditions), ("consequent", .list (listToJson consequent)),
       ("alternate", .list (listToJson alternate))]
  | call name args => .tagged "macro" [("name", .text name), ("args", .ofTexts args)]
  | script code => .tagged "script" [("code", .text code)]

/-- The records of statements, in order. -/
def listToJson : List Statement → List Json
  | [] => []
  | stmt :: stmts => toJson stmt :: listToJson stmts

end

end Statement

/-- The record of a segment. -/
def Segment.toJson (s : Segment) : Json :=
  .tagged "knot" [("name", .text s.name), ("children", .list (Statement.listToJson s.children))]

end Dialogue
