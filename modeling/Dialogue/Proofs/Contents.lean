import Dialogue.Proofs.Accepted
import Dialogue.Proofs.RoundTrip

/-!
# What a script says

The texts of a script, in the order in which they stand in its tokens and in its tree.  A token
carries at most one text; a tree is walked from the left to the right, each node in the order in
which its parts are written.

`texts_eq_of_parse` says that parsing keeps every text, once and in its place.  Statements wait in
the scopes of the stack until their conditional is complete, so this is not visible in a single
step of the parser; in the grammar it is, where every phrase takes its texts off the front of the
tokens and leaves the rest of them alone.
-/

namespace Dialogue

/-! ### Texts in order -/

/-- The text that a token carries; keywords and markers have none. -/
def Token.Kind.text? : Token.Kind → Option String
  | string value => some value
  | header name => some name
  | divert target => some target
  | marker => none
  | condition expr => some expr
  | script code => some code
  | actor name => some name
  | keyword _ => none
  | symbol value => some value

/-- The texts of tokens. -/
def Token.texts (ts : List Token) : List String :=
  ts.filterMap (·.kind.text?)

namespace Offer

mutual

/-- The texts of an offer: the line and its divert, or the condition and both branches. -/
def texts : Offer → List String
  | line text divert => text :: divert.toList
  | split condition consequent alternate => condition :: (texts? consequent ++ texts? alternate)

/-- The texts of a branch. -/
def texts? : Option Offer → List String
  | none => []
  | some o => texts o

end

end Offer

namespace Statement

mutual

/-- The texts of a statement. -/
def texts : Statement → List String
  | divert target => [target]
  | speech actor line => [actor, line]
  | choice line conditions target => line :: (conditions ++ target.toList)
  | offer o => o.texts
  | conditional conditions consequent alternate =>
    conditions ++ (listTexts consequent ++ listTexts alternate)
  | call name args => name :: args
  | script code => [code]

/-- The texts of a block. -/
def listTexts : List Statement → List String
  | [] => []
  | stmt :: stmts => texts stmt ++ listTexts stmts

end

end Statement

/-- The texts of a segment: its name, if it has one, and those of its statements. -/
def Segment.texts (s : Segment) : List String :=
  (if s.isAnonymous then [] else [s.name]) ++ Statement.listTexts s.children

@[simp] theorem Token.texts_nil : Token.texts [] = [] :=
  rfl

@[simp] theorem Token.texts_cons (t : Token) (ts : List Token) :
    Token.texts (t :: ts) = t.kind.text?.toList ++ Token.texts ts := by
  rw [Token.texts, List.filterMap_cons]
  cases t.kind.text? <;> rfl

/-! ### Phrases -/

namespace Grammar

theorem Conditions.texts_eq {line : Nat} {ts rest : List Token} {exprs : List String}
    (h : Conditions line ts exprs rest) : Token.texts ts = exprs ++ Token.texts rest := by
  induction h with
  | nil ts => rfl
  | cons _ _ ih => simp [Token.Kind.text?, ih]

theorem Arguments.texts_eq {line : Nat} {ts rest : List Token} {args : List String}
    (h : Arguments line ts args rest) : Token.texts ts = args ++ Token.texts rest := by
  induction h with
  | nil ts => rfl
  | symbol _ _ ih => simp [Token.Kind.text?, ih]
  | string _ _ ih => simp [Token.Kind.text?, ih]

theorem Jump.texts_eq {line : Nat} {ts rest : List Token} {divert : Option String}
    (h : Jump line ts divert rest) : Token.texts ts = divert.toList ++ Token.texts rest := by
  cases h with
  | none => rfl
  | some _ => simp [Token.Kind.text?]

mutual

theorem Selection.texts_eq : {ts rest : List Token} → {offer : Offer} →
    Selection ts offer rest → Token.texts ts = offer.texts ++ Token.texts rest
  | _, _, _, .intro hfirst hsecond => by
    simp [Token.Kind.text?, Offer.texts, hfirst.texts_eq, hsecond.texts_eq]

theorem SelectionTail.texts_eq : {ts rest : List Token} → {second : Option Offer} →
    SelectionTail ts second rest → Token.texts ts = Offer.texts? second ++ Token.texts rest
  | _, _, _, .elif h => by simp [Token.Kind.text?, Offer.texts?, h.texts_eq]
  | _, _, _, .else_ h => by simp [Token.Kind.text?, h.texts_eq]
  | _, _, _, .endif => by simp [Token.Kind.text?, Offer.texts?]

theorem Body.texts_eq : {ts rest : List Token} → {body : Option Offer} →
    Body ts body rest → Token.texts ts = Offer.texts? body ++ Token.texts rest
  | _, _, _, .nothing _ => rfl
  | _, _, _, .line hjump => by simp [Token.Kind.text?, Offer.texts?, Offer.texts, hjump.texts_eq]
  | _, _, _, .selection h => by simp [Token.Kind.text?, Offer.texts?, h.texts_eq]

end

theorem Simple.texts_eq {ts rest : List Token} {stmt : Statement} (h : Simple ts stmt rest) :
    Token.texts ts = stmt.texts ++ Token.texts rest := by
  cases h with
  | speech _ => simp [Token.Kind.text?, Statement.texts]
  | divert => simp [Token.Kind.text?, Statement.texts]
  | script => simp [Token.Kind.text?, Statement.texts]
  | call hargs _ => simp [Token.Kind.text?, Statement.texts, hargs.texts_eq]
  | choice hconds _ hjump _ =>
    simp [Token.Kind.text?, Statement.texts, hconds.texts_eq, hjump.texts_eq]
  | offer hsel => simp [Token.Kind.text?, Statement.texts, hsel.texts_eq]

mutual

/-- **A block takes the texts of its statements off the tokens**, in order. -/
theorem Block.texts_eq : {ts rest : List Token} → {stmts : List Statement} →
    Block ts stmts rest → Token.texts ts = Statement.listTexts stmts ++ Token.texts rest
  | _, _, _, .nil _ => rfl
  | _, _, _, .cons hfirst hrest => by
    simp [Statement.listTexts, hfirst.texts_eq, hrest.texts_eq]

theorem Stmt.texts_eq : {ts rest : List Token} → {stmt : Statement} →
    Stmt ts stmt rest → Token.texts ts = stmt.texts ++ Token.texts rest
  | _, _, _, .simple h => h.texts_eq
  | _, _, _, .conditional h => by simp [Token.Kind.text?, h.texts_eq]

theorem Conditional.texts_eq : {line : Nat} → {ts rest : List Token} → {stmt : Statement} →
    Conditional line ts stmt rest → Token.texts ts = stmt.texts ++ Token.texts rest
  | _, _, _, _, .intro hconds _ hfirst hsecond => by
    simp [Statement.texts, hconds.texts_eq, hfirst.texts_eq, hsecond.texts_eq]

theorem ConditionalTail.texts_eq : {ts rest : List Token} → {second : List Statement} →
    ConditionalTail ts second rest →
      Token.texts ts = Statement.listTexts second ++ Token.texts rest
  | _, _, _, .elif h => by simp [Token.Kind.text?, Statement.listTexts, h.texts_eq]
  | _, _, _, .else_ h => by simp [Token.Kind.text?, h.texts_eq]
  | _, _, _, .endif => by simp [Token.Kind.text?, Statement.listTexts]

end

/-! ### Scripts -/

theorem Block.suffix {ts rest : List Token} {stmts : List Statement} (h : Block ts stmts rest) :
    rest <:+ ts :=
  (h.reaches ⟨0, 0⟩ .initial (State.collecting_of_scopes_eq_nil rfl)).suffix

/-- A segment behind a header says its name and its statements, unless the name is empty. -/
theorem Headed.texts_eq {ts : List Token} {segments : List Segment} (h : Headed ts segments)
    (hnames : ∀ t ∈ ts, t.kind ≠ .header "") :
    Token.texts ts = segments.flatMap Segment.texts := by
  induction h with
  | nil => rfl
  | @cons name p ts rest stmts segments hblock _ ih =>
    have hname : (⟨name, stmts⟩ : Segment).isAnonymous = false := by
      apply beq_eq_false_iff_ne.mpr
      rintro rfl
      exact hnames _ List.mem_cons_self rfl
    have hrest : ∀ t ∈ rest, t.kind ≠ .header "" :=
      fun t ht => hnames t (List.mem_cons_of_mem _ (hblock.suffix.subset ht))
    simp [Token.Kind.text?, Segment.texts, hname, hblock.texts_eq, ih hrest]

theorem Script.texts_eq {ts : List Token} {segments : List Segment} (h : Script ts segments)
    (hnames : ∀ t ∈ ts, t.kind ≠ .header "") :
    Token.texts ts = segments.flatMap Segment.texts := by
  obtain ⟨lead, rest, headed, hblock, hheaded, rfl⟩ := h
  have hrest := hheaded.texts_eq fun t ht => hnames t (hblock.suffix.subset ht)
  cases lead with
  | nil => simp [hblock.texts_eq, Statement.listTexts, hrest]
  | cons stmt stmts =>
    -- the lead has no name, so it says nothing but its statements
    have hlead : Segment.texts ⟨"", stmt :: stmts⟩ = Statement.listTexts (stmt :: stmts) := rfl
    simp [hblock.texts_eq, hlead, hrest]

end Grammar

/-- **Parsing loses no text, repeats none and moves none.**  The texts that the tokens carry are
those that are met in the segments, provided that no header has an empty name. -/
theorem texts_eq_of_parse {ts : List Token} {segments : List Segment}
    (hnames : ∀ t ∈ ts, t.kind ≠ .header "") (h : parse ts = .ok segments) :
    Token.texts ts = segments.flatMap Segment.texts :=
  (script_of_parse h).texts_eq hnames

theorem texts_sampleScript :
    (∀ t ∈ laidLines 0 (sampleScript.flatMap Segment.sourceLines), t.kind ≠ .header "") ∧
      parse (laidLines 0 (sampleScript.flatMap Segment.sourceLines)) = .ok sampleScript ∧
      Token.texts (laidLines 0 (sampleScript.flatMap Segment.sourceLines)) =
        ["if", "say \"]\n\\ // ==", "2_Door", "knock", "n < 3", " [x ", "Hall", "key", "bribe",
          "pay\r", "Hall", "seen", "play", "", "\t*", "a", "b", "Hall", "x = '] -> y'", "Hall"] := by
  have hnames : ∀ t ∈ laidLines 0 (sampleScript.flatMap Segment.sourceLines),
      t.kind ≠ .header "" := by decide
  have hparse := wellFormedScript_sampleScript.script_laidLines.parse
  exact ⟨hnames, hparse, texts_eq_of_parse hnames hparse⟩

/-- No header of a source has an empty name, so every text of a source that is read is kept. -/
theorem exists_texts_of_readScript {name source : String} {segments : List Segment}
    (h : readScript name source = .ok segments) :
    ∃ ts, tokenize source = .ok ts ∧ Token.texts ts = segments.flatMap Segment.texts := by
  obtain ⟨ts, hts, hparse⟩ := readScript_eq_ok_iff.mp h
  refine ⟨ts, hts, (script_of_parse hparse).texts_eq ?_⟩
  intro t ht hkind
  have hwf := wellFormed_of_tokenize hts t ht
  rw [hkind] at hwf
  exact absurd rfl hwf.1

end Dialogue
