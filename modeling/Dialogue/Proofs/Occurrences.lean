import Dialogue.Proofs.Accepted
import Dialogue.Proofs.RoundTrip

/-!
# What stands in a script

Which scripts have a source, said for every statement by itself, at whatever depth it stands.
`Statement.Within` and `Offer.Within` are occurrence, and `Statement.Proper` and `Offer.Proper` look
at one statement or offer and leave its branches aside.

Being well formed goes down a tree from its root, so it amounts to the same
(`Statement.forall_wellFormed_iff`).  With both directions between sources and well-formed scripts,
`exists_source_iff` follows: reading returns exactly the scripts in which every statement is proper,
every segment is named, and the first one may go without a name if it has statements.
-/

namespace Dialogue

/-! ### Offers -/

namespace Offer

/-- The offer `o` is another one, or stands in one of its branches. -/
inductive Within (o : Offer) : Offer → Prop
  | here : Within o o
  | consequent {condition : String} {first : Offer} {second : Option Offer} : Within o first →
      Within o (.split condition (some first) second)
  | alternate {condition : String} {first : Option Offer} {second : Offer} : Within o second →
      Within o (.split condition first (some second))

/-- The texts of an offer without those of its branches. -/
def Proper : Offer → Prop
  | line _ divert => ∀ t ∈ divert, IsTarget t
  | split condition _ _ => IsCondition condition

theorem WellFormed.proper_of_within {o o' : Offer} (h : o'.WellFormed) (hwithin : o.Within o') :
    o.Proper := by
  induction hwithin with
  | here =>
    cases h with
    | line hdivert => exact hdivert
    | split hcondition _ _ => exact hcondition
  | consequent _ ih =>
    cases h with
    | split _ hfirst _ => exact ih (hfirst _ rfl)
  | alternate _ ih =>
    cases h with
    | split _ _ hsecond => exact ih (hsecond _ rfl)

mutual

theorem wellFormed_of_proper : (o : Offer) → (∀ o' : Offer, o'.Within o → o'.Proper) → o.WellFormed
  | .line text divert, h => .line (h _ .here)
  | .split condition first second, h => by
    refine .split (h _ .here) (wellFormed_of_proper? first ?_) (wellFormed_of_proper? second ?_)
    · rintro _ rfl o' hwithin
      exact h o' (.consequent hwithin)
    · rintro _ rfl o' hwithin
      exact h o' (.alternate hwithin)

theorem wellFormed_of_proper? : (o? : Option Offer) →
    (∀ o, o? = some o → ∀ o' : Offer, o'.Within o → o'.Proper) → ∀ o ∈ o?, o.WellFormed
  | none, _, _, ho => by cases ho
  | some o, h, _, ho => by
    obtain rfl := Option.some.inj ho
    exact wellFormed_of_proper o (h o rfl)

end

/-- **An offer is well formed if all that stands in it is proper.** -/
theorem wellFormed_iff {o : Offer} : o.WellFormed ↔ ∀ o' : Offer, o'.Within o → o'.Proper :=
  ⟨fun h _ hwithin => h.proper_of_within hwithin, wellFormed_of_proper o⟩

end Offer

/-! ### Statements -/

namespace Statement

/-- A statement stands in a block: as one of its statements, or in a branch of one of them. -/
inductive Within (stmt : Statement) : List Statement → Prop
  | here {block : List Statement} : stmt ∈ block → Within stmt block
  | consequent {block first second : List Statement} {conditions : List String} :
      .conditional conditions first second ∈ block → Within stmt first → Within stmt block
  | alternate {block first second : List Statement} {conditions : List String} :
      .conditional conditions first second ∈ block → Within stmt second → Within stmt block

theorem Within.mono {stmt : Statement} {block block' : List Statement} (h : stmt.Within block)
    (hsub : block ⊆ block') : stmt.Within block' := by
  cases h with
  | here hmem => exact .here (hsub hmem)
  | consequent hmem hwithin => exact .consequent (hsub hmem) hwithin
  | alternate hmem hwithin => exact .alternate (hsub hmem) hwithin

/-- The texts of a statement without those of its branches.  A conditional has conditions, and an
offer in a block selects. -/
def Proper : Statement → Prop
  | divert target => IsTarget target
  | speech actor _ => IsIdentifier actor
  | choice _ conditions target => (∀ e ∈ conditions, IsCondition e) ∧ ∀ t ∈ target, IsTarget t
  | offer o => (∃ condition first second, o = .split condition first second) ∧
      ∀ o' : Offer, o'.Within o → o'.Proper
  | conditional conditions _ _ => conditions ≠ [] ∧ ∀ e ∈ conditions, IsCondition e
  | call name _ => IsRoutineName name
  | script code => IsCode code

theorem WellFormed.proper {stmt : Statement} (h : stmt.WellFormed) : stmt.Proper := by
  cases h with
  | divert htarget => exact htarget
  | speech hactor => exact hactor
  | choice hconditions htarget => exact ⟨hconditions, htarget⟩
  | offer hoffer => exact ⟨⟨_, _, _, rfl⟩, Offer.wellFormed_iff.mp hoffer⟩
  | conditional hne hconditions _ _ => exact ⟨hne, hconditions⟩
  | call hname => exact hname
  | script hcode => exact hcode

theorem Within.proper {stmt : Statement} {block : List Statement} (h : stmt.Within block)
    (hwf : ∀ s ∈ block, s.WellFormed) : stmt.Proper := by
  induction h with
  | here hmem => exact (hwf stmt hmem).proper
  | consequent hmem _ ih =>
    cases hwf _ hmem with
    | conditional _ _ hfirst _ => exact ih hfirst
  | alternate hmem _ ih =>
    cases hwf _ hmem with
    | conditional _ _ _ hsecond => exact ih hsecond

mutual

theorem wellFormed_of_proper : (stmt : Statement) → (∀ s : Statement, s.Within [stmt] → s.Proper) →
    stmt.WellFormed
  | .divert _, h => .divert (h _ (.here List.mem_cons_self))
  | .speech _ _, h => .speech (h _ (.here List.mem_cons_self))
  | .choice _ _ _, h => by
    obtain ⟨hconditions, htarget⟩ := h _ (.here List.mem_cons_self)
    exact .choice hconditions htarget
  | .offer o, h => by
    obtain ⟨⟨condition, first, second, rfl⟩, hoffer⟩ := h _ (.here List.mem_cons_self)
    exact .offer (Offer.wellFormed_iff.mpr hoffer)
  | .conditional conditions first second, h => by
    obtain ⟨hne, hconditions⟩ := h _ (.here List.mem_cons_self)
    refine .conditional hne hconditions (forall_wellFormed_of_proper first fun s hs => ?_)
      (forall_wellFormed_of_proper second fun s hs => ?_)
    · exact h s (.consequent List.mem_cons_self hs)
    · exact h s (.alternate List.mem_cons_self hs)
  | .call _ _, h => .call (h _ (.here List.mem_cons_self))
  | .script _, h => .script (h _ (.here List.mem_cons_self))

theorem forall_wellFormed_of_proper : (block : List Statement) →
    (∀ s : Statement, s.Within block → s.Proper) → ∀ stmt ∈ block, stmt.WellFormed
  | [], _ => List.forall_mem_nil _
  | stmt :: rest, h => by
    have hfirst := wellFormed_of_proper stmt fun s hs => h s (hs.mono (by simp))
    have hrest := forall_wellFormed_of_proper rest fun s hs =>
      h s (hs.mono (List.subset_cons_self stmt rest))
    exact List.forall_mem_cons.mpr ⟨hfirst, hrest⟩

end

/-- **A block is well formed if all that stands in it is proper**, at every depth. -/
theorem forall_wellFormed_iff {block : List Statement} :
    (∀ stmt ∈ block, stmt.WellFormed) ↔ ∀ stmt : Statement, stmt.Within block → stmt.Proper :=
  ⟨fun h _ hwithin => hwithin.proper h, forall_wellFormed_of_proper block⟩

end Statement

/-! ### Scripts -/

/-- **The scripts that have a source.**  Every segment is named, but the first one may go without a
name if it has statements, and every statement is proper, at whatever depth it stands. -/
theorem exists_source_iff {segments : List Segment} :
    (∃ name source, readScript name source = .ok segments) ↔
      (∀ s ∈ segments.head?, IsSegmentName s.name ∨ (s.name = "" ∧ s.children ≠ [])) ∧
      (∀ s ∈ segments.tail, IsSegmentName s.name) ∧
      ∀ s ∈ segments, ∀ stmt : Statement, stmt.Within s.children → stmt.Proper := by
  constructor
  · rintro ⟨name, source, h⟩
    obtain ⟨hfirst, hothers, hchildren⟩ := wellFormedScript_of_readScript h
    exact ⟨hfirst, hothers, fun s hs => Statement.forall_wellFormed_iff.mp (hchildren s hs)⟩
  · rintro ⟨hfirst, hothers, hchildren⟩
    have hwf : WellFormedScript segments :=
      ⟨hfirst, hothers, fun s hs => Statement.forall_wellFormed_iff.mpr (hchildren s hs)⟩
    -- the printed script is a source
    exact ⟨"", printScript segments, readScript_eq_ok_iff.mpr hwf.exists_tokens⟩

end Dialogue
