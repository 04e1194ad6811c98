import Dialogue.Proofs.Run

/-!
# Tokens that go on

What stands at the start of tokens is still there when more tokens follow.  Two kinds of phrases need
care, since they take all they can get: a call reads its line to the end, and conditions and a divert
are absorbed if they stand on the right line.  Such a phrase only changes if it reached up to the
last token and the new tokens go on with its line.  `Apart` excludes that.

`Reaches.append` carries this over to runs: the parser does with the first tokens what it would do
without the others.
-/

namespace Dialogue

open Grammar Relation

/-- The tokens `us` cannot be taken for a part of the phrases in `ts`, of which `rest` is left: there
is something in between, or `us` starts on a line of its own. -/
def Apart (ts rest us : List Token) : Prop :=
  rest = [] → ∀ u ∈ us.head?, ∀ t ∈ ts, u.line ≠ t.line

theorem apart_of_ne_nil {ts rest us : List Token} (h : rest ≠ []) : Apart ts rest us :=
  fun hnil => absurd hnil h

theorem Apart.mono {ts ts' rest rest' us : List Token} (h : Apart ts rest us) (hsub : ts' ⊆ ts)
    (hrest : rest' = [] → rest = []) : Apart ts' rest' us :=
  fun hnil u hu t ht => h (hrest hnil) u hu t (hsub ht)

/-- Where nothing of a class on `line` follows, nothing of it follows when tokens are added. -/
theorem Apart.stops {ts rest us : List Token} (h : Apart ts rest us) {p : Token → Prop} {t : Token}
    (ht : t ∈ ts) (hp : ∀ u, p u → u.line = t.line) (hstop : Stops p rest) :
    Stops p (rest ++ us) := by
  cases rest with
  | nil =>
    intro u hu hpu
    exact h rfl u hu t ht (hp u hpu)
  | cons t' rest => exact stops_cons.mpr (stops_cons.mp hstop)

namespace Grammar

/-! ### Phrases -/

theorem Conditions.append {line : Nat} {ts rest : List Token} {exprs : List String}
    (h : Conditions line ts exprs rest) (us : List Token) :
    Conditions line (ts ++ us) exprs (rest ++ us) := by
  induction h with
  | nil ts => exact .nil _
  | cons hline _ ih => exact .cons hline ih

theorem Arguments.append {line : Nat} {ts rest : List Token} {args : List String}
    (h : Arguments line ts args rest) (us : List Token) :
    Arguments line (ts ++ us) args (rest ++ us) := by
  induction h with
  | nil ts => exact .nil _
  | symbol hline _ ih => exact .symbol hline ih
  | string hline _ ih => exact .string hline ih

theorem Jump.append {line : Nat} {ts rest : List Token} {divert : Option String}
    (h : Jump line ts divert rest) (us : List Token) :
    Jump line (ts ++ us) divert (rest ++ us) := by
  cases h with
  | none => exact .none _
  | some hline => exact .some hline

mutual

theorem Selection.append : {ts rest : List Token} → {offer : Offer} → Selection ts offer rest →
    (us : List Token) → Selection (ts ++ us) offer (rest ++ us)
  | _, _, _, .intro hfirst hsecond, us => .intro (hfirst.append us) (hsecond.append us)

theorem SelectionTail.append : {ts rest : List Token} → {second : Option Offer} →
    SelectionTail ts second rest → (us : List Token) →
    SelectionTail (ts ++ us) second (rest ++ us)
  | _, _, _, .elif h, us => .elif (h.append us)
  | _, _, _, .else_ h, us => .else_ (h.append us)
  | _, _, _, .endif, _ => .endif

theorem Body.append : {ts rest : List Token} → {body : Option Offer} → Body ts body rest →
    (us : List Token) → Body (ts ++ us) body (rest ++ us)
  | _, _, _, .nothing _, _ => .nothing _
  | _, _, _, .line hjump, us => .line (hjump.append us)
  | _, _, _, .selection h, us => .selection (h.append us)

end

/-- **A statement stays as it is** if the new tokens are apart from it. -/
theorem Simple.append {ts rest us : List Token} {stmt : Statement} (h : Simple ts stmt rest)
    (hus : Apart ts rest us) : Simple (ts ++ us) stmt (rest ++ us) := by
  cases h with
  | speech hline => exact .speech hline
  | divert => exact .divert
  | script => exact .script
  | call hargs hstop =>
    exact .call (hargs.append us) (hus.stops List.mem_cons_self (fun _ hu => hu) hstop)
  | @choice text p q ts ts' _ exprs divert hconds hstop hjump habsorbed =>
    have hmem : ⟨.string text, q⟩ ∈ ⟨.marker, p⟩ :: ⟨.string text, q⟩ :: ts := by simp
    -- behind the conditions there is nothing left only if the divert is missing, too
    have hus' : Apart (⟨.marker, p⟩ :: ⟨.string text, q⟩ :: ts) ts' us := by
      refine hus.mono (List.Subset.refl _) ?_
      rintro rfl
      cases hjump
      rfl
    exact .choice (hconds.append us) (hus'.stops hmem (fun _ hu => hu.2) hstop) (hjump.append us)
      (fun hnone => hus.stops hmem (fun _ hu => hu.2) (habsorbed hnone))
  | offer hsel => exact .offer (hsel.append us)

end Grammar

/-! ### Clauses and runs -/

theorem ClauseAt.append {ts rest us : List Token} {clause : Clause} (h : ClauseAt ts clause rest)
    (hus : Apart ts rest us) : ClauseAt (ts ++ us) clause (rest ++ us) := by
  cases h with
  | header => exact .header
  | opening hconds hstop =>
    exact .opening (hconds.append us) (hus.stops List.mem_cons_self (fun _ hu => hu.2) hstop)
  | chaining hconds hstop =>
    exact .chaining (hconds.append us) (hus.stops List.mem_cons_self (fun _ hu => hu.2) hstop)
  | otherwise => exact .otherwise
  | closing => exact .closing
  | statement hsimple => exact .statement (hsimple.append hus)

theorem Advances.append {stop : Position} {c c' : State × List Token} (h : Advances stop c c')
    {us : List Token} (hus : Apart c.2 c'.2 us) (stop' : Position) :
    Advances stop' (c.1, c.2 ++ us) (c'.1, c'.2 ++ us) := by
  obtain ⟨hclause, hstep⟩ := h
  exact .clause (takeClause_yields_iff.mpr ((takeClause_yields_iff.mp hclause).append hus)) hstep

/-- **A run over the first tokens is a part of the run over all of them.** -/
theorem Reaches.append {stop : Position} {c c' : State × List Token} (h : Reaches stop c c')
    {us : List Token} (hus : Apart c.2 c'.2 us) (stop' : Position) :
    Reaches stop' (c.1, c.2 ++ us) (c'.1, c'.2 ++ us) := by
  induction h using ReflTransGen.head_induction_on with
  | refl => exact .refl
  | @head c₁ c₂ hadv hreach ih =>
    have hfirst : Apart c₁.2 c₂.2 us := by
      refine hus.mono (List.Subset.refl _) ?_
      intro hnil
      have hsuffix := Reaches.suffix hreach
      rw [hnil] at hsuffix
      exact List.suffix_nil.mp hsuffix
    exact .head (hadv.append hfirst stop') (ih (hus.mono hadv.suffix.subset id))

end Dialogue
