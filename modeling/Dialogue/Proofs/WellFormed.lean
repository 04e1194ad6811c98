import Dialogue.Script
import Dialogue.Text.Blank
import Dialogue.Token

/-!
# Well-formed scripts

What the texts inside a script may be.  Words, speech and arguments are free; names, targets,
conditions and code belong to a class of texts each, and the classes say what has to be excluded so
that a text can stand in the source of a script.  `Token.Kind.WellFormed` collects them.

`Offer.WellFormed` and `Statement.WellFormed` carry the classes over to trees.  A conditional has at
least one condition, and the choice of an `offer` always selects.  In a well-formed script
(`WellFormedScript`) every segment has a name, but for the first one, which may go without one if
it has statements.
-/

namespace Dialogue

/-! ### Classes of texts -/

/-- An ASCII letter, an ASCII digit or the underscore. -/
def IsWordChar (c : Char) : Prop :=
  c.isAlphanum ∨ c = '_'

/-- An ASCII letter or the underscore. -/
def IsNameChar (c : Char) : Prop :=
  c.isAlpha ∨ c = '_'

instance : DecidablePred IsWordChar := fun c => inferInstanceAs (Decidable (c.isAlphanum ∨ c = '_'))

instance : DecidablePred IsNameChar := fun c => inferInstanceAs (Decidable (c.isAlpha ∨ c = '_'))

/-- The name of a segment: one or more word characters. -/
def IsSegmentName (name : String) : Prop :=
  name.toList ≠ [] ∧ ∀ c ∈ name.toList, IsWordChar c

/-- The target of a divert: a letter, then word characters. -/
def IsTarget (target : String) : Prop :=
  ∃ c cs, target.toList = c :: cs ∧ c.isAlpha ∧ ∀ d ∈ cs, IsWordChar d

/-- An identifier: a lower-case letter, then letters and underscores. -/
def IsIdentifier (name : String) : Prop :=
  ∃ c cs, name.toList = c :: cs ∧ c.isLower ∧ ∀ d ∈ cs, IsNameChar d

/-- The name of a routine of the host platform: an identifier that is no keyword. -/
def IsRoutineName (name : String) : Prop :=
  IsIdentifier name ∧ ∀ word : Keyword, name ≠ word.text

/-- A condition: it fits between brackets on one line, and it is not all blank. -/
def IsCondition (expr : String) : Prop :=
  ']' ∉ expr.toList ∧ '\n' ∉ expr.toList ∧ ∃ c ∈ expr.toList, Text.isBlank c = false

/-- Code of the host platform: it fits between braces on one line, and it neither starts nor ends
with a blank. -/
def IsCode (code : String) : Prop :=
  '\x7d' ∉ code.toList ∧ '\n' ∉ code.toList ∧ code.toList ≠ [] ∧
    (∀ c ∈ code.toList.head?, Text.isBlank c = false) ∧
    ∀ c ∈ code.toList.getLast?, Text.isBlank c = false

-- The checks go through `List.all` and `List.any`, so that they only look at the text and not at
-- every character there is.

instance : DecidablePred IsSegmentName := fun name =>
  decidable_of_iff (name.toList ≠ [] ∧ name.toList.all (IsWordChar ·) = true)
    (by simp [IsSegmentName])

/-- Whether a text starts with a character of one class and goes on with those of another. -/
def decidableStartsWith (p q : Char → Prop) [DecidablePred p] [DecidablePred q] :
    (l : List Char) → Decidable (∃ c cs, l = c :: cs ∧ p c ∧ ∀ d ∈ cs, q d)
  | [] => isFalse (by simp)
  | c :: cs => decidable_of_iff (p c ∧ cs.all (q ·) = true) (by
      rw [List.all_eq_true]
      simp only [decide_eq_true_eq]
      constructor
      · exact fun h => ⟨c, cs, rfl, h⟩
      · rintro ⟨_, _, ⟨⟩, h⟩
        exact h)

instance : DecidablePred IsTarget := fun target =>
  decidableStartsWith (·.isAlpha) IsWordChar target.toList

instance : DecidablePred IsIdentifier := fun name =>
  decidableStartsWith (·.isLower) IsNameChar name.toList

instance : DecidablePred IsCondition := fun expr =>
  decidable_of_iff (']' ∉ expr.toList ∧ '\n' ∉ expr.toList ∧
    expr.toList.any (!Text.isBlank ·) = true) (by simp [IsCondition])

instance : DecidablePred IsCode := fun code =>
  decidable_of_iff ('\x7d' ∉ code.toList ∧ '\n' ∉ code.toList ∧ code.toList ≠ [] ∧
    code.toList.head?.all (!Text.isBlank ·) = true ∧
    code.toList.getLast?.all (!Text.isBlank ·) = true) (by simp [IsCode, Option.all_eq_true])

/-- The text that a token carries belongs to the class of its kind. -/
def Token.Kind.WellFormed : Token.Kind → Prop
  | string _ => True
  | header name => IsSegmentName name
  | divert target => IsTarget target
  | marker => True
  | condition expr => IsCondition expr
  | script code => IsCode code
  | actor name => IsIdentifier name
  | keyword _ => True
  | symbol value => IsRoutineName value

/-! ### Trees -/

/-- The conditions and targets of an offer are well formed. -/
inductive Offer.WellFormed : Offer → Prop
  | line {text : String} {divert : Option String} : (∀ t ∈ divert, IsTarget t) →
      WellFormed (.line text divert)
  | split {condition : String} {consequent alternate : Option Offer} : IsCondition condition →
      (∀ o ∈ consequent, WellFormed o) → (∀ o ∈ alternate, WellFormed o) →
      WellFormed (.split condition consequent alternate)

/-- The texts of a statement are well formed, conditionals have conditions, and offers select. -/
inductive Statement.WellFormed : Statement → Prop
  | divert {target : String} : IsTarget target → WellFormed (.divert target)
  | speech {actor line : String} : IsIdentifier actor → WellFormed (.speech actor line)
  | choice {line : String} {conditions : List String} {divert : Option String} :
      (∀ e ∈ conditions, IsCondition e) → (∀ t ∈ divert, IsTarget t) →
      WellFormed (.choice line conditions divert)
  | offer {condition : String} {consequent alternate : Option Offer} :
      (Offer.split condition consequent alternate).WellFormed →
      WellFormed (.offer (.split condition consequent alternate))
  | conditional {conditions : List String} {consequent alternate : List Statement} :
      conditions ≠ [] → (∀ e ∈ conditions, IsCondition e) →
      (∀ stmt ∈ consequent, WellFormed stmt) → (∀ stmt ∈ alternate, WellFormed stmt) →
      WellFormed (.conditional conditions consequent alternate)
  | call {name : String} {args : List String} : IsRoutineName name → WellFormed (.call name args)
  | script {code : String} : IsCode code → WellFormed (.script code)

/-- A script that has a source. -/
structure WellFormedScript (segments : List Segment) : Prop where
  first_name : ∀ s ∈ segments.head?, IsSegmentName s.name ∨ (s.name = "" ∧ s.children ≠ [])
  other_names : ∀ s ∈ segments.tail, IsSegmentName s.name
  children : ∀ s ∈ segments, ∀ stmt ∈ s.children, stmt.WellFormed

end Dialogue
