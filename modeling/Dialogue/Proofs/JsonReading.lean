import Dialogue.Proofs.Atoms
import Dialogue.Script.Json

/-!
# Reading JSON

`Json.take` reads a value off the front of atoms.  It is a machine with a stack: `Json.Reader` holds
the lists and records that the reader is inside of, the innermost first, and the value that has just
been completed, if there is one.  A comma may stand behind the last item of a list or record.

`Json.take_atoms` says that every value is read back from its atoms, whatever follows them, and
`Statement.ofChoiceJson?_toJson` that the record of a choice determines the choice.
-/

namespace Dialogue

namespace Json

/-! ### The reader -/

/-- A list or record that is being read. -/
inductive Frame where
  | list (items : List Json)
  /-- A name comes next, or the end. -/
  | record (fields : List (String × Json))
  /-- A colon comes next. -/
  | named (fields : List (String × Json)) (name : String)
  /-- The value of a field comes next. -/
  | field (fields : List (String × Json)) (name : String)

structure Reader where
  done : Option Json
  frames : List Frame

/-- Reads one atom. -/
def Reader.feed : Reader → Atom → Option Reader
  | ⟨none, .record fields :: below⟩, .text name => some ⟨none, .named fields name :: below⟩
  | ⟨none, .record fields :: below⟩, .mark '\x7d' => some ⟨some (.record fields), below⟩
  | ⟨none, .record _ :: _⟩, _ => none
  | ⟨none, .named fields name :: below⟩, .mark ':' => some ⟨none, .field fields name :: below⟩
  | ⟨none, .named _ _ :: _⟩, _ => none
  | ⟨none, .list items :: below⟩, .mark ']' => some ⟨some (.list items), below⟩
  | ⟨none, frames⟩, .text value => some ⟨some (.text value), frames⟩
  | ⟨none, frames⟩, .word name => if name = "null" then some ⟨some .null, frames⟩ else none
  | ⟨none, frames⟩, .mark '[' => some ⟨none, .list [] :: frames⟩
  | ⟨none, frames⟩, .mark '\x7b' => some ⟨none, .record [] :: frames⟩
  | ⟨some v, .list items :: below⟩, .mark ',' => some ⟨none, .list (items ++ [v]) :: below⟩
  | ⟨some v, .list items :: below⟩, .mark ']' => some ⟨some (.list (items ++ [v])), below⟩
  | ⟨some v, .field fields name :: below⟩, .mark ',' =>
    some ⟨none, .record (fields ++ [(name, v)]) :: below⟩
  | ⟨some v, .field fields name :: below⟩, .mark '\x7d' =>
    some ⟨some (.record (fields ++ [(name, v)])), below⟩
  | _, _ => none

/-- Reads atoms until a value is complete and nothing encloses it. -/
def Reader.take : Reader → List Atom → Option (Json × List Atom)
  | ⟨some v, []⟩, rest => some (v, rest)
  | _, [] => none
  | r, a :: rest =>
    match r.feed a with
    | none => none
    | some r' => r'.take rest

/-- The value at the front of atoms, and what follows it. -/
def take (as : List Atom) : Option (Json × List Atom) :=
  Reader.take ⟨none, []⟩ as

/-! ### Atoms of a value -/

/-- The comma behind an item when `more` says that another one follows. -/
def comma (more : Bool) : List Atom :=
  if more then [.mark ','] else []

mutual

/-- The atoms of a value. -/
def atoms : Json → List Atom
  | null => [.word "null"]
  | text value => [.text value]
  | list items => .mark '[' :: (itemsAtoms items ++ [.mark ']'])
  | record fields => .mark '\x7b' :: (fieldsAtoms fields ++ [.mark '\x7d'])

/-- The atoms of the items of a list. -/
def itemsAtoms : List Json → List Atom
  | [] => []
  | item :: rest => atoms item ++ comma (!rest.isEmpty) ++ itemsAtoms rest

/-- The atoms of the fields of a record. -/
def fieldsAtoms : List (String × Json) → List Atom
  | [] => []
  | (name, value) :: rest =>
    .text name :: .mark ':' :: (atoms value ++ comma (!rest.isEmpty) ++ fieldsAtoms rest)

end

/-- A value may come next. -/
def Frame.Open : Frame → Prop
  | list _ => True
  | field _ _ => True
  | _ => False

/-! ### Values are read back -/

/-- A reader that has not finished reads on. -/
theorem Reader.take_none {frames : List Frame} {a : Atom} {r : Reader}
    (h : Reader.feed ⟨none, frames⟩ a = some r) (rest : List Atom) :
    Reader.take ⟨none, frames⟩ (a :: rest) = r.take rest := by
  rw [Reader.take, h]
  nofun

theorem Reader.take_some {v : Json} {f : Frame} {below : List Frame} {a : Atom} {r : Reader}
    (h : Reader.feed ⟨some v, f :: below⟩ a = some r) (rest : List Atom) :
    Reader.take ⟨some v, f :: below⟩ (a :: rest) = r.take rest := by
  rw [Reader.take, h]
  nofun

theorem Reader.feed_of_open {frames : List Frame} (h : ∀ f ∈ frames.head?, f.Open) :
    feed ⟨none, frames⟩ (.word "null") = some ⟨some .null, frames⟩ ∧
      (∀ value, feed ⟨none, frames⟩ (.text value) = some ⟨some (.text value), frames⟩) ∧
      feed ⟨none, frames⟩ (.mark '[') = some ⟨none, .list [] :: frames⟩ ∧
      feed ⟨none, frames⟩ (.mark '\x7b') = some ⟨none, .record [] :: frames⟩ := by
  cases frames with
  | nil => exact ⟨rfl, fun _ => rfl, rfl, rfl⟩
  | cons f below =>
    have hf := h f rfl
    cases f with
    | list items => exact ⟨rfl, fun _ => rfl, rfl, rfl⟩
    | record fields => exact absurd hf id
    | named fields name => exact absurd hf id
    | field fields name => exact ⟨rfl, fun _ => rfl, rfl, rfl⟩

theorem Reader.take_name (done : List (String × Json)) (name : String) (below : List Frame)
    (rest : List Atom) :
    Reader.take ⟨none, .record done :: below⟩ (.text name :: .mark ':' :: rest) =
      Reader.take ⟨none, .field done name :: below⟩ rest :=
  (Reader.take_none rfl _).trans (Reader.take_none rfl _)

mutual

theorem take_value : (v : Json) → (frames : List Frame) → (∀ f ∈ frames.head?, f.Open) →
    (rest : List Atom) →
    Reader.take ⟨none, frames⟩ (v.atoms ++ rest) = Reader.take ⟨some v, frames⟩ rest
  | null, _, hframes, rest => Reader.take_none (Reader.feed_of_open hframes).1 rest
  | text value, _, hframes, rest => Reader.take_none ((Reader.feed_of_open hframes).2.1 value) rest
  | list items, frames, hframes, rest => by
    have hopen := (Reader.feed_of_open hframes).2.2.1
    rw [atoms, List.cons_append, List.append_assoc, Reader.take_none hopen]
    exact take_items items [] frames rest
  | record fields, frames, hframes, rest => by
    have hopen := (Reader.feed_of_open hframes).2.2.2
    rw [atoms, List.cons_append, List.append_assoc, Reader.take_none hopen]
    exact take_fields fields [] frames rest

theorem take_items : (items done : List Json) → (below : List Frame) → (rest : List Atom) →
    Reader.take ⟨none, .list done :: below⟩ (itemsAtoms items ++ .mark ']' :: rest) =
      Reader.take ⟨some (.list (done ++ items)), below⟩ rest
  | [], done, below, rest => by
    rw [List.append_nil]
    exact Reader.take_none rfl rest
  | [item], done, below, rest => by
    have hopen : ∀ f ∈ (Frame.list done :: below).head?, f.Open := by
      rintro _ ⟨⟩
      trivial
    have hitem := take_value item (.list done :: below) hopen (.mark ']' :: rest)
    simp only [itemsAtoms, List.isEmpty_nil, Bool.not_true, comma, Bool.false_eq_true, if_false,
      List.append_nil]
    rw [hitem]
    exact Reader.take_some rfl rest
  | item :: next :: items, done, below, rest => by
    have hopen : ∀ f ∈ (Frame.list done :: below).head?, f.Open := by
      rintro _ ⟨⟩
      trivial
    have hitem := take_value item (.list done :: below) hopen
      (.mark ',' :: (itemsAtoms (next :: items) ++ .mark ']' :: rest))
    have hrest := take_items (next :: items) (done ++ [item]) below rest
    rw [List.append_assoc, List.singleton_append] at hrest
    rw [itemsAtoms, List.append_assoc, List.append_assoc, ← hrest]
    exact hitem.trans (Reader.take_some rfl _)

theorem take_fields : (fields done : List (String × Json)) → (below : List Frame) →
    (rest : List Atom) →
    Reader.take ⟨none, .record done :: below⟩ (fieldsAtoms fields ++ .mark '\x7d' :: rest) =
      Reader.take ⟨some (.record (done ++ fields)), below⟩ rest
  | [], done, below, rest => by
    rw [List.append_nil]
    exact Reader.take_none rfl rest
  | [(name, value)], done, below, rest => by
    have hopen : ∀ f ∈ (Frame.field done name :: below).head?, f.Open := by
      rintro _ ⟨⟩
      trivial
    have hvalue := take_value value (.field done name :: below) hopen (.mark '\x7d' :: rest)
    simp only [fieldsAtoms, List.isEmpty_nil, Bool.not_true, comma, Bool.false_eq_true, if_false,
      List.append_nil]
    rw [List.cons_append, List.cons_append, Reader.take_name, hvalue]
    exact Reader.take_some rfl rest
  | (name, value) :: next :: fields, done, below, rest => by
    have hopen : ∀ f ∈ (Frame.field done name :: below).head?, f.Open := by
      rintro _ ⟨⟩
      trivial
    have hvalue := take_value value (.field done name :: below) hopen
      (.mark ',' :: (fieldsAtoms (next :: fields) ++ .mark '\x7d' :: rest))
    have hrest := take_fields (next :: fields) (done ++ [(name, value)]) below rest
    rw [List.append_assoc, List.singleton_append] at hrest
    rw [fieldsAtoms, List.cons_append, List.cons_append, Reader.take_name, List.append_assoc,
      List.append_assoc, ← hrest]
    exact hvalue.trans (Reader.take_some rfl _)

end

/-- **Every value is read back from its atoms**, whatever follows them. -/
theorem take_atoms (v : Json) (rest : List Atom) : take (v.atoms ++ rest) = some (v, rest) := by
  rw [take, take_value v [] nofun rest, Reader.take]

end Json

/-! ### Choices -/

/-- The text that a value is. -/
def Json.text? : Json → Option String
  | text value => some value
  | _ => none

/-- The text that a value is, or none for null. -/
def Json.optionalText? : Json → Option (Option String)
  | null => some none
  | text value => some (some value)
  | _ => none

def Json.isNull : Json → Bool
  | null => true
  | _ => false

/-- The offer of a record. -/
def Offer.ofJson? : Json → Option Offer
  | .record [(tag, .text form), (name₁, .text text), (name₂, divert)] =>
    if tag = "type" ∧ form = "unconditional_choice" ∧ name₁ = "line" ∧ name₂ = "divert" then
      divert.optionalText?.map (.line text)
    else none
  | .record [(tag, .text form), (name₁, .text condition), (name₂, first), (name₃, second)] =>
    if tag = "type" ∧ form = "control_flow_choice" ∧ name₁ = "condition" ∧ name₂ = "consequent" ∧
        name₃ = "alternate" then
      match if first.isNull then some none else (ofJson? first).map some,
        if second.isNull then some none else (ofJson? second).map some with
      | some consequent, some alternate => some (.split condition consequent alternate)
      | _, _ => none
    else none
  | _ => none

/-- The choice of a record. -/
def Statement.ofChoiceJson? (v : Json) : Option Statement :=
  match v with
  | .record [(tag, .text form), (name₁, .text line), (name₂, .list conditions), (name₃, target)] =>
    if tag = "type" ∧ form = "simple_choice" ∧ name₁ = "line" ∧ name₂ = "conditions" ∧
        name₃ = "divert" then
      match conditions.mapM Json.text?, target.optionalText? with
      | some conditions, some target => some (.choice line conditions target)
      | _, _ => none
    else none
  | v => (Offer.ofJson? v).map .offer

theorem Json.optionalText?_ofText? (s? : Option String) :
    (Json.ofText? s?).optionalText? = some s? := by
  cases s? <;> rfl

/-- What is written item by item and can be read item by item is read as a whole. -/
theorem mapM_map_eq_some {α β γ : Type} {write : α → β} {read : β → Option γ} {value : α → γ}
    {xs : List α} (h : ∀ x ∈ xs, read (write x) = some (value x)) :
    (xs.map write).mapM read = some (xs.map value) := by
  induction xs with
  | nil => rfl
  | cons x xs ih =>
    have hrest := ih fun x' hx' => h x' (List.mem_cons_of_mem x hx')
    rw [List.map_cons, List.mapM_cons, h x List.mem_cons_self, hrest]
    rfl

theorem Json.mapM_text? (texts : List String) :
    (texts.map Json.text).mapM Json.text? = some texts := by
  have htexts : ∀ t ∈ texts, (Json.text t).text? = some (id t) := fun _ _ => rfl
  rw [mapM_map_eq_some htexts, List.map_id]

mutual

theorem Offer.ofJson?_toJson : (o : Offer) → Offer.ofJson? o.toJson = some o
  | .line text divert => by
    rw [Offer.toJson, Json.tagged, Offer.ofJson?]
    simp [Json.optionalText?_ofText?]
  | .split condition consequent alternate => by
    rw [Offer.toJson, Json.tagged, Offer.ofJson?, Offer.ofJson?_toJson? consequent,
      Offer.ofJson?_toJson? alternate]
    simp

theorem Offer.ofJson?_toJson? : (o? : Option Offer) →
    (if (Offer.toJson? o?).isNull then some none else (Offer.ofJson? (Offer.toJson? o?)).map some) =
      some o?
  | none => rfl
  | some o => by
    rw [Offer.toJson?, Offer.ofJson?_toJson o]
    cases o <;> rfl

end

/-- The record of an offer is not that of a plain choice. -/
theorem Statement.ofChoiceJson?_offer (o : Offer) :
    Statement.ofChoiceJson? o.toJson = (Offer.ofJson? o.toJson).map .offer := by
  cases o with
  | line text divert => cases divert <;> rfl
  | split condition consequent alternate =>
    cases consequent with
    | none => rfl
    | some first => cases first <;> rfl

/-- **The record of a choice determines the choice.** -/
theorem Statement.ofChoiceJson?_toJson {stmt : Statement} (h : stmt.isChoice = true) :
    Statement.ofChoiceJson? stmt.toJson = some stmt := by
  cases stmt with
  | choice line conditions target =>
    rw [Statement.toJson, Json.tagged, Json.ofTexts, Statement.ofChoiceJson?,
      if_pos ⟨rfl, rfl, rfl, rfl, rfl⟩, Json.mapM_text?, Json.optionalText?_ofText?]
  | offer o =>
    rw [Statement.toJson, Statement.ofChoiceJson?_offer, Offer.ofJson?_toJson, Option.map_some]
  | _ => cases h

end Dialogue
