import Dialogue.Text.Quoted

/-!
# Lines of output and JSON

Output is a list of lines, each with the depth at which it stands.  Only rendering knows how wide a
level of indentation is, so the structure of an output is independent of the width.

`Json` is the fragment of JSON that a script is written in: texts, lists, records and null.  A
record keeps its fields in order.

`Json.layout` writes a value over several lines, one for each item of a list and each field of a
record.  It takes what stands in front of the value on its first line (a field's name) and behind it
on its last line (a comma), so that the lines of a value inside another are made once and stay as
they are.
-/

namespace Dialogue

/-! ### Lines -/

/-- A line of output and the number of levels it is indented by. -/
structure Line where
  depth : Nat
  text : String
deriving DecidableEq, Repr

namespace Line

/-- A line with nothing on it. -/
def empty : Line := ⟨0, ""⟩

/-- A line with `width` spaces for each level, without a line end. -/
def render (width : Nat) (l : Line) : String :=
  String.ofList (List.replicate (l.depth * width) ' ') ++ l.text

/-- Lines one after the other, a line feed between two of them. -/
def joined (width : Nat) (ls : List Line) : String :=
  "\n".intercalate (ls.map (render width))

/-- Lines one after the other, a line feed after each. -/
def terminated (width : Nat) (ls : List Line) : String :=
  String.join (ls.map fun l => l.render width ++ "\n")

end Line

/-! ### Values -/

/-- A value. -/
inductive Json where
  | null
  | text (value : String)
  | list (items : List Json)
  | record (fields : List (String × Json))
deriving Repr

namespace Json

/-- A text, or null for none. -/
def ofText? : Option String → Json
  | none => null
  | some s => text s

/-- A list of texts. -/
def ofTexts (ss : List String) : Json :=
  list (ss.map text)

/-- What stands behind an item when `more` says that another one follows. -/
def separator (more : Bool) : String :=
  if more then "," else ""

mutual

/-- The lines of a value, between `before` and `after`. -/
def layout (depth : Nat) (before after : String) : Json → List Line
  | null => [⟨depth, before ++ "null" ++ after⟩]
  | text value => [⟨depth, before ++ Text.quote value ++ after⟩]
  | list items =>
    if items.isEmpty then [⟨depth, before ++ "[]" ++ after⟩]
    else ⟨depth, before ++ "["⟩ :: (layoutItems (depth + 1) items ++ [⟨depth, "]" ++ after⟩])
  | record fields =>
    if fields.isEmpty then [⟨depth, before ++ "\x7b\x7d" ++ after⟩]
    else
      ⟨depth, before ++ "\x7b"⟩ :: (layoutFields (depth + 1) fields ++ [⟨depth, "\x7d" ++ after⟩])

/-- The lines of the items of a list. -/
def layoutItems (depth : Nat) : List Json → List Line
  | [] => []
  | item :: rest => layout depth "" (separator (!rest.isEmpty)) item ++ layoutItems depth rest

/-- The lines of the fields of a record. -/
def layoutFields (depth : Nat) : List (String × Json) → List Line
  | [] => []
  | (key, value) :: rest =>
    layout depth (Text.quote key ++ ": ") (separator (!rest.isEmpty)) value ++
      layoutFields depth rest

end

/-- A value as indented text. -/
def pretty (width : Nat) (value : Json) : String :=
  Line.joined width (layout 0 "" "" value)

end Json

end Dialogue
