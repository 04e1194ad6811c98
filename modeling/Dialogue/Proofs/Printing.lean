import Dialogue.Proofs.Lexemes

/-!
# Printing scripts

The source of a script, from its segments, as lines of tokens.  Statements take one line each, but
for conditionals and offers, whose branches, `elif`, `else` and `endif` stand on lines of their own.
An alternate that is nothing but a conditional is written as an `elif`.
-/

namespace Dialogue

/-! ### Statements -/

/-- The divert at the end of a choice. -/
def jumpKinds : Option String → List Token.Kind
  | none => []
  | some target => [.divert target]

namespace Offer

mutual

/-- The lines of an offer that stands in a branch. -/
def bodyLines : Offer → List (List Token.Kind)
  | line text divert => [.string text :: jumpKinds divert]
  | split condition consequent alternate =>
    [.keyword .if_, .condition condition] :: (bodyLines? consequent ++ tailLines? alternate)

/-- The lines of an offer that is the alternate of a selection, and the `endif` behind it. -/
def tailLines : Offer → List (List Token.Kind)
  | line text divert =>
    [[.keyword .else_], .string text :: jumpKinds divert, [.keyword .endif]]
  | split condition consequent alternate =>
    [.keyword .elif, .condition condition] :: (bodyLines? consequent ++ tailLines? alternate)

/-- The lines of a branch. -/
def bodyLines? : Option Offer → List (List Token.Kind)
  | none => []
  | some o => bodyLines o

/-- The lines of an alternate. -/
def tailLines? : Option Offer → List (List Token.Kind)
  | none => [[.keyword .endif]]
  | some o => tailLines o

end

/-- The lines of an offer that stands in a block. -/
def choiceLines : Offer → List (List Token.Kind)
  | line text divert => [.marker :: .string text :: jumpKinds divert]
  | split condition consequent alternate =>
    [.marker, .keyword .if_, .condition condition] ::
      (bodyLines? consequent ++ tailLines? alternate)

end Offer

namespace Statement

/-- Whether a statement is a conditional. -/
def isConditional : Statement → Bool
  | conditional _ _ _ => true
  | _ => false

mutual

/-- The lines of a statement; a conditional starts with `word`. -/
def sourceLines (word : Keyword) : Statement → List (List Token.Kind)
  | divert target => [[.divert target]]
  | speech actor line => [[.actor actor, .string line]]
  | choice line conditions target =>
    [.marker :: .string line :: (conditions.map .condition ++ jumpKinds target)]
  | offer o => o.choiceLines
  | conditional conditions consequent alternate =>
    (.keyword word :: conditions.map .condition) ::
      (blockLines consequent ++ alternateLines alternate)
  | call name args => [.symbol name :: args.map .string]
  | script code => [[.script code]]

/-- The lines of the alternate of a conditional, and the `endif` behind it. -/
def alternateLines : List Statement → List (List Token.Kind)
  | [] => [[.keyword .endif]]
  | stmt :: stmts =>
    if stmts.isEmpty && stmt.isConditional then sourceLines .elif stmt
    else [.keyword .else_] :: (sourceLines .if_ stmt ++ blockLines stmts ++ [[.keyword .endif]])

/-- The lines of a block. -/
def blockLines : List Statement → List (List Token.Kind)
  | [] => []
  | stmt :: stmts => sourceLines .if_ stmt ++ blockLines stmts

end

end Statement

/-- The lines of a segment: its header, if it has a name, and its statements. -/
def Segment.sourceLines (s : Segment) : List (List Token.Kind) :=
  (if s.isAnonymous then [] else [[.header s.name]]) ++ Statement.blockLines s.children

/-- **The source of a script.** -/
def printScript (segments : List Segment) : String :=
  printLines (segments.flatMap Segment.sourceLines)

/-! ### Printed lines can be read -/

/-- Every line can be written. -/
def LinesFit (lines : List (List Token.Kind)) : Prop :=
  ∀ kinds ∈ lines, LineFits true kinds

theorem LinesFit.nil : LinesFit [] :=
  nofun

theorem LinesFit.cons {kinds : List Token.Kind} {lines : List (List Token.Kind)}
    (hkinds : LineFits true kinds) (hlines : LinesFit lines) : LinesFit (kinds :: lines) :=
  List.forall_mem_cons.mpr ⟨hkinds, hlines⟩

theorem LinesFit.append {a b : List (List Token.Kind)} (ha : LinesFit a) (hb : LinesFit b) :
    LinesFit (a ++ b) :=
  List.forall_mem_append.mpr ⟨ha, hb⟩

theorem lineFits_keyword (atStart : Bool) (word : Keyword) {kinds : List Token.Kind}
    (h : LineFits false kinds) : LineFits atStart (.keyword word :: kinds) :=
  ⟨trivial, trivial, h⟩

theorem lineFits_string (atStart : Bool) (text : String) {kinds : List Token.Kind}
    (h : LineFits false kinds) : LineFits atStart (.string text :: kinds) :=
  ⟨trivial, trivial, h⟩

theorem lineFits_jumpKinds {divert : Option String} (h : ∀ t ∈ divert, IsTarget t) :
    LineFits false (jumpKinds divert) := by
  cases divert with
  | none => trivial
  | some target => exact ⟨h target rfl, rfl, trivial⟩

theorem lineFits_conditions {exprs : List String} (h : ∀ e ∈ exprs, IsCondition e)
    {kinds : List Token.Kind} (hkinds : LineFits false kinds) :
    LineFits false (exprs.map .condition ++ kinds) := by
  induction exprs with
  | nil => exact hkinds
  | cons expr exprs ih =>
    exact ⟨h expr List.mem_cons_self, trivial, ih fun e he => h e (List.mem_cons_of_mem expr he)⟩

theorem lineFits_strings (texts : List String) : LineFits false (texts.map .string) := by
  induction texts with
  | nil => trivial
  | cons text texts ih => exact lineFits_string false text ih

namespace Offer

mutual

theorem linesFit_bodyLines : (o : Offer) → o.WellFormed → LinesFit o.bodyLines
  | line text divert, h => by
    cases h with
    | line hdivert =>
      exact .cons (lineFits_string true text (lineFits_jumpKinds hdivert)) .nil
  | split condition consequent alternate, h => by
    cases h with
    | split hcondition hconsequent halternate =>
      have hfirst : LineFits false [.condition condition] := ⟨hcondition, trivial, trivial⟩
      exact .cons (lineFits_keyword true .if_ hfirst)
        ((linesFit_bodyLines? consequent hconsequent).append
          (linesFit_tailLines? alternate halternate))

theorem linesFit_tailLines : (o : Offer) → o.WellFormed → LinesFit o.tailLines
  | line text divert, h => by
    cases h with
    | line hdivert =>
      exact .cons (lineFits_keyword true .else_ trivial)
        (.cons (lineFits_string true text (lineFits_jumpKinds hdivert))
          (.cons (lineFits_keyword true .endif trivial) .nil))
  | split condition consequent alternate, h => by
    cases h with
    | split hcondition hconsequent halternate =>
      have hfirst : LineFits false [.condition condition] := ⟨hcondition, trivial, trivial⟩
      exact .cons (lineFits_keyword true .elif hfirst)
        ((linesFit_bodyLines? consequent hconsequent).append
          (linesFit_tailLines? alternate halternate))

theorem linesFit_bodyLines? : (o? : Option Offer) → (∀ o ∈ o?, o.WellFormed) →
    LinesFit (bodyLines? o?)
  | none, _ => .nil
  | some o, h => linesFit_bodyLines o (h o rfl)

theorem linesFit_tailLines? : (o? : Option Offer) → (∀ o ∈ o?, o.WellFormed) →
    LinesFit (tailLines? o?)
  | none, _ => .cons (lineFits_keyword true .endif trivial) .nil
  | some o, h => linesFit_tailLines o (h o rfl)

end

end Offer

namespace Statement

mutual

theorem linesFit_sourceLines (word : Keyword) : (stmt : Statement) → stmt.WellFormed →
    LinesFit (stmt.sourceLines word)
  | divert target, h => by
    cases h with
    | divert htarget => exact .cons ⟨htarget, rfl, trivial⟩ .nil
  | speech actor line, h => by
    cases h with
    | speech hactor => exact .cons ⟨hactor, trivial, lineFits_string false line trivial⟩ .nil
  | choice line conditions target, h => by
    cases h with
    | choice hconditions htarget =>
      have hkinds := lineFits_conditions hconditions (lineFits_jumpKinds htarget)
      exact .cons ⟨trivial, ⟨rfl, nofun⟩, lineFits_string false line hkinds⟩ .nil
  | offer o, h => by
    cases h with
    | @offer condition consequent alternate ho =>
      cases ho with
      | split hcondition hconsequent halternate =>
        have hfirst : LineFits false [.condition condition] := ⟨hcondition, trivial, trivial⟩
        exact .cons ⟨trivial, ⟨rfl, nofun⟩, lineFits_keyword false .if_ hfirst⟩
          ((Offer.linesFit_bodyLines? consequent hconsequent).append
            (Offer.linesFit_tailLines? alternate halternate))
  | conditional conditions consequent alternate, h => by
    cases h with
    | conditional _ hconditions hconsequent halternate =>
      have hfirst : LineFits false (conditions.map .condition ++ []) :=
        lineFits_conditions hconditions trivial
      rw [List.append_nil] at hfirst
      exact .cons (lineFits_keyword true word hfirst)
        ((linesFit_blockLines consequent hconsequent).append
          (linesFit_alternateLines alternate halternate))
  | call name args, h => by
    cases h with
    | call hname => exact .cons ⟨hname, trivial, lineFits_strings args⟩ .nil
  | script code, h => by
    cases h with
    | script hcode => exact .cons ⟨hcode, trivial, trivial⟩ .nil

theorem linesFit_alternateLines : (stmts : List Statement) → (∀ stmt ∈ stmts, stmt.WellFormed) →
    LinesFit (alternateLines stmts)
  | [], _ => .cons (lineFits_keyword true .endif trivial) .nil
  | stmt :: stmts, h => by
    have hstmt := h stmt List.mem_cons_self
    have hstmts := linesFit_blockLines stmts fun s hs => h s (List.mem_cons_of_mem stmt hs)
    rw [alternateLines]
    split
    · exact linesFit_sourceLines .elif stmt hstmt
    · exact .cons (lineFits_keyword true .else_ trivial)
        (((linesFit_sourceLines .if_ stmt hstmt).append hstmts).append
          (.cons (lineFits_keyword true .endif trivial) .nil))

theorem linesFit_blockLines : (stmts : List Statement) → (∀ stmt ∈ stmts, stmt.WellFormed) →
    LinesFit (blockLines stmts)
  | [], _ => .nil
  | stmt :: stmts, h =>
    (linesFit_sourceLines .if_ stmt (h stmt List.mem_cons_self)).append
      (linesFit_blockLines stmts fun s hs => h s (List.mem_cons_of_mem stmt hs))

end

end Statement

theorem WellFormedScript.name_of_mem {segments : List Segment} (h : WellFormedScript segments)
    {s : Segment} (hs : s ∈ segments) : IsSegmentName s.name ∨ s.name = "" := by
  cases segments with
  | nil => cases hs
  | cons first rest =>
    rcases List.mem_cons.mp hs with rfl | hs
    · exact (h.first_name s rfl).imp_right And.left
    · exact .inl (h.other_names s hs)

/-- **Every line of a printed script can be read.** -/
theorem WellFormedScript.linesFit {segments : List Segment} (h : WellFormedScript segments) :
    LinesFit (segments.flatMap Segment.sourceLines) := by
  intro kinds hkinds
  obtain ⟨s, hs, hkinds⟩ := List.mem_flatMap.mp hkinds
  have hheader : LinesFit (if s.isAnonymous then [] else [[.header s.name]]) := by
    split
    · exact .nil
    · rename_i hanonymous
      rcases h.name_of_mem hs with hname | hempty
      · exact .cons ⟨hname, ⟨rfl, rfl⟩, trivial⟩ .nil
      · rw [Segment.isAnonymous, hempty] at hanonymous
        exact absurd rfl hanonymous
  exact hheader.append (Statement.linesFit_blockLines s.children (h.children s hs)) kinds hkinds

end Dialogue
