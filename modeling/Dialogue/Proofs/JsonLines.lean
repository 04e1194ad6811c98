import Dialogue.Json
import Dialogue.Proofs.Quoting

/-!
# Lines of JSON text

Whatever the texts of a value say, a line of its layout shows one thing: a text in quotes, null, or
a bracket, with a field's name in front of it and a comma behind it where there is one
(`Json.spelled_layout`).  So no line is empty, none holds a control character
(`Json.isSolid_of_mem_layout`), and each starts with a quote, a bracket or the word `null`
(`Json.exists_cons_of_mem_layout`).
-/

namespace Dialogue

/-! ### Spelling -/

namespace Json

/-- What a line of JSON text shows of a value. -/
inductive Core : String → Prop
  | null : Core "null"
  | text (value : String) : Core (Text.quote value)
  | emptyList : Core "[]"
  | openList : Core "["
  | closeList : Core "]"
  | emptyRecord : Core "\x7b\x7d"
  | openRecord : Core "\x7b"
  | closeRecord : Core "\x7d"

/-- The text of a line of a value that stands between `before` and `after`.  In front of what it
shows is `before` or a field's name, and behind it is `after` or a comma. -/
inductive Spelled (before after : String) : String → Prop
  | intro {label core tail : String} :
      label = before ∨ label = "" ∨ (∃ key, label = Text.quote key ++ ": ") → Core core →
      tail = after ∨ tail = "" ∨ tail = "," → Spelled before after (label ++ core ++ tail)

theorem spelled_open {core : String} (hcore : Core core) (before after : String) :
    Spelled before after (before ++ core) := by
  have hline : Spelled before after (before ++ core ++ "") :=
    .intro (.inl rfl) hcore (.inr (.inl rfl))
  rwa [String.append_empty] at hline

theorem spelled_close {core : String} (hcore : Core core) (before after : String) :
    Spelled before after (core ++ after) := by
  have hline : Spelled before after ("" ++ core ++ after) :=
    .intro (.inr (.inl rfl)) hcore (.inl rfl)
  rwa [String.empty_append] at hline

/-- A line of an item or of a field is a line of the whole. -/
theorem Spelled.inner {label line : String} {more : Bool}
    (h : Spelled label (separator more) line)
    (hlabel : label = "" ∨ ∃ key, label = Text.quote key ++ ": ") (before after : String) :
    Spelled before after line := by
  obtain ⟨hlabel', hcore, htail⟩ := h
  refine .intro (.inr ?_) hcore (.inr ?_)
  · rcases hlabel' with rfl | hlabel'
    · exact hlabel
    · exact hlabel'
  · rcases htail with rfl | htail
    · cases more with
      | true => exact .inr rfl
      | false => exact .inl rfl
    · exact htail

mutual

/-- **Every line of JSON text is spelled this way**, whatever the texts of the value say. -/
theorem spelled_layout : (v : Json) → (depth : Nat) → (before after : String) →
    ∀ l ∈ v.layout depth before after, Spelled before after l.text
  | null, depth, before, after => by
    rw [layout]
    exact List.forall_mem_singleton.mpr (.intro (.inl rfl) .null (.inl rfl))
  | text value, depth, before, after => by
    rw [layout]
    exact List.forall_mem_singleton.mpr (.intro (.inl rfl) (.text value) (.inl rfl))
  | list [], depth, before, after => by
    rw [layout, if_pos List.isEmpty_nil]
    exact List.forall_mem_singleton.mpr (.intro (.inl rfl) .emptyList (.inl rfl))
  | list (item :: items), depth, before, after => by
    have hitems := spelled_layoutItems (item :: items) (depth + 1) before after
    have hclose := spelled_close .closeList before after
    rw [layout, if_neg (by simp)]
    exact List.forall_mem_cons.mpr ⟨spelled_open .openList before after,
      List.forall_mem_append.mpr ⟨hitems, List.forall_mem_singleton.mpr hclose⟩⟩
  | record [], depth, before, after => by
    rw [layout, if_pos List.isEmpty_nil]
    exact List.forall_mem_singleton.mpr (.intro (.inl rfl) .emptyRecord (.inl rfl))
  | record (field :: fields), depth, before, after => by
    have hfields := spelled_layoutFields (field :: fields) (depth + 1) before after
    have hclose := spelled_close .closeRecord before after
    rw [layout, if_neg (by simp)]
    exact List.forall_mem_cons.mpr ⟨spelled_open .openRecord before after,
      List.forall_mem_append.mpr ⟨hfields, List.forall_mem_singleton.mpr hclose⟩⟩

theorem spelled_layoutItems : (items : List Json) → (depth : Nat) → (before after : String) →
    ∀ l ∈ layoutItems depth items, Spelled before after l.text
  | [], _, _, _ => List.forall_mem_nil _
  | item :: items, depth, before, after => by
    rw [layoutItems]
    refine List.forall_mem_append.mpr ⟨?_, spelled_layoutItems items depth before after⟩
    intro l hl
    exact (spelled_layout item depth _ _ l hl).inner (.inl rfl) before after

theorem spelled_layoutFields : (fields : List (String × Json)) → (depth : Nat) →
    (before after : String) → ∀ l ∈ layoutFields depth fields, Spelled before after l.text
  | [], _, _, _ => List.forall_mem_nil _
  | (key, value) :: fields, depth, before, after => by
    rw [layoutFields]
    refine List.forall_mem_append.mpr ⟨?_, spelled_layoutFields fields depth before after⟩
    intro l hl
    exact (spelled_layout value depth _ _ l hl).inner (.inr ⟨key, rfl⟩) before after

end

end Json

/-! ### Characters -/

/-- No control character stands in the text. -/
def IsVisible (text : String) : Prop :=
  ∀ c ∈ text.toList, 0x20 ≤ c.toNat

/-- A text that is not empty and has no control character. -/
def IsSolid (text : String) : Prop :=
  text ≠ "" ∧ IsVisible text

theorem IsVisible.append {a b : String} (ha : IsVisible a) (hb : IsVisible b) :
    IsVisible (a ++ b) := by
  rw [IsVisible, String.toList_append]
  exact List.forall_mem_append.mpr ⟨ha, hb⟩

/-- Whatever a text says, its literal has no control character. -/
theorem isVisible_quote (text : String) : IsVisible (Text.quote text) := by
  intro c hc
  rw [Text.quote, String.toList_ofList] at hc
  exact Text.Quoted.space_le_of_mem_encode hc

theorem IsVisible.newline_notMem {text : String} (h : IsVisible text) : '\n' ∉ text.toList :=
  fun hmem => absurd (h _ hmem) (by decide)

namespace Json

/-- The characters that what a line shows starts with. -/
def isOpener (c : Char) : Bool :=
  c == '"' || c == '[' || c == ']' || c == '\x7b' || c == '\x7d' || c == 'n'

theorem Core.exists_cons {core : String} (h : Core core) :
    ∃ c cs, core.toList = c :: cs ∧ isOpener c = true := by
  cases h with
  | text value => exact ⟨_, _, Text.toList_quote value, rfl⟩
  | _ => exact ⟨_, _, rfl, rfl⟩

/-- **Every line of JSON text starts with what it shows, or with a field's name.** -/
theorem exists_cons_of_mem_layout (v : Json) (depth : Nat) (after : String) :
    ∀ l ∈ v.layout depth "" after, ∃ c cs, l.text.toList = c :: cs ∧ isOpener c = true := by
  intro l hl
  obtain ⟨level, line⟩ := l
  obtain @⟨label, core, tail, hlabel, hcore, -⟩ := spelled_layout v depth "" after _ hl
  show ∃ c cs, (label ++ core ++ tail).toList = c :: cs ∧ isOpener c = true
  obtain ⟨c, cs, hchars, hc⟩ := hcore.exists_cons
  have hlabel' : label = "" ∨ ∃ key, label = Text.quote key ++ ": " := by
    rcases hlabel with rfl | hlabel
    · exact .inl rfl
    · exact hlabel
  rcases hlabel' with rfl | ⟨key, rfl⟩
  · refine ⟨c, cs ++ tail.toList, ?_, hc⟩
    rw [String.empty_append, String.toList_append, hchars, List.cons_append]
  · rw [String.toList_append, String.toList_append, String.toList_append, Text.toList_quote]
    exact ⟨_, _, rfl, rfl⟩

theorem Core.isVisible {core : String} (h : Core core) : IsVisible core := by
  cases h with
  | text value => exact isVisible_quote value
  | _ => simp [IsVisible]

/-- **No line of JSON text is empty or holds a control character**, whatever its texts say. -/
theorem isSolid_of_mem_layout (v : Json) (depth : Nat) {before after : String}
    (hbefore : IsVisible before) (hafter : IsVisible after) :
    ∀ l ∈ v.layout depth before after, IsSolid l.text := by
  intro l hl
  obtain ⟨level, line⟩ := l
  obtain @⟨label, core, tail, hlabel, hcore, htail⟩ := spelled_layout v depth before after _ hl
  have hfront : IsVisible label := by
    rcases hlabel with rfl | rfl | ⟨key, rfl⟩
    · exact hbefore
    · simp [IsVisible]
    · exact (isVisible_quote key).append (by simp [IsVisible])
  have hback : IsVisible tail := by
    rcases htail with rfl | rfl | rfl
    · exact hafter
    · simp [IsVisible]
    · simp [IsVisible]
  refine ⟨?_, (hfront.append hcore.isVisible).append hback⟩
  obtain ⟨c, cs, hchars, -⟩ := hcore.exists_cons
  show label ++ core ++ tail ≠ ""
  rw [← String.toList_inj.ne, String.toList_append, String.toList_append, hchars]
  simp

end Json

end Dialogue
