import Dialogue.Proofs.Parsing

/-!
# Selections and conditionals nest alike

A selection and a conditional are written with the same keywords, but they are read in different
ways.  The reader of a selection calls itself for every `elif` and every nested `if`, so its nesting
is that of its calls.  A conditional is read clause by clause, and its nesting is kept on a stack
that an `endif` takes down.

To compare them, let an actor speak the lines that a selection offers.  `Spoken` does this to tokens:
the actor's name is put in front of every string, on its line, and every condition is put on the line
of its keyword, where a conditional looks for it.  `Offer.spoken` does it to what has been read.
`parse_of_spoken` says that the two agree.

Neither reader is run in the proof.  Both are known to read exactly the phrases of their grammar, so
it is enough to turn the derivation of a selection into that of a conditional, rule by rule.
-/

namespace Dialogue

open Grammar

/-! ### Lines that are spoken -/

namespace Offer

mutual

/-- The statements by which `actor` speaks the line of an offer, or selects what to speak. -/
def spoken (actor : String) : Offer → List Statement
  | line text divert => .speech actor text :: divert.toList.map .divert
  | split condition consequent alternate =>
    [.conditional [condition] (spoken? actor consequent) (spoken? actor alternate)]

/-- The statements of a branch, none if it offers nothing. -/
def spoken? (actor : String) : Option Offer → List Statement
  | none => []
  | some o => spoken actor o

end

end Offer

/-- Whether a condition belongs to a keyword. -/
def Keyword.tests : Keyword → Bool
  | if_ | elif => true
  | else_ | endif => false

/-- The tokens of a selection, and the same tokens with `actor` in front of every string.  A name
stands on the line of its string, and a condition on the line of its keyword; apart from that the
tokens may stand anywhere. -/
inductive Spoken (actor : String) : List Token → List Token → Prop
  | nil : Spoken actor [] []
  | string {text : String} {p p' q' : Position} {ts ts' : List Token} : q'.line = p'.line →
      Spoken actor ts ts' →
      Spoken actor (⟨.string text, p⟩ :: ts) (⟨.actor actor, p'⟩ :: ⟨.string text, q'⟩ :: ts')
  | divert {target : String} {p p' : Position} {ts ts' : List Token} : Spoken actor ts ts' →
      Spoken actor (⟨.divert target, p⟩ :: ts) (⟨.divert target, p'⟩ :: ts')
  | keyword {word : Keyword} {p p' : Position} {ts ts' : List Token} : word.tests = false →
      Spoken actor ts ts' →
      Spoken actor (⟨.keyword word, p⟩ :: ts) (⟨.keyword word, p'⟩ :: ts')
  | condition {word : Keyword} {expr : String} {p p' q q' : Position} {ts ts' : List Token} :
      word.tests = true → q'.line = p'.line → Spoken actor ts ts' →
      Spoken actor (⟨.keyword word, p⟩ :: ⟨.condition expr, q⟩ :: ts)
        (⟨.keyword word, p'⟩ :: ⟨.condition expr, q'⟩ :: ts')

variable {actor : String}

/-! ### Every selection can be spoken -/

mutual

theorem Grammar.Selection.exists_spoken : {ts rest us : List Token} → {offer : Offer} →
    {word : Keyword} → Selection ts offer rest → Spoken actor rest us → word.tests = true →
    (p : Position) → ∃ vs, Spoken actor (⟨.keyword word, p⟩ :: ts) vs
  | _, _, _, _, word, @Selection.intro expr q _ _ _ _ _ hfirst hsecond, hus, htests, p => by
    obtain ⟨vs, hvs⟩ := hsecond.exists_spoken hus
    obtain ⟨ws, hws⟩ := hfirst.exists_spoken hvs
    -- the condition moves to the line of its keyword
    exact ⟨⟨.keyword word, p⟩ :: ⟨.condition expr, ⟨p.line, q.column⟩⟩ :: ws,
      .condition htests rfl hws⟩

theorem Grammar.SelectionTail.exists_spoken : {ts rest us : List Token} →
    {second : Option Offer} → SelectionTail ts second rest → Spoken actor rest us →
    ∃ vs, Spoken actor ts vs
  | _, _, _, _, @SelectionTail.elif p _ _ _ hsel, hus => hsel.exists_spoken hus rfl p
  | _, _, _, _, @SelectionTail.else_ p q _ _ _ hbody, hus => by
    have hendif : Spoken actor (⟨.keyword .endif, q⟩ :: _) (⟨.keyword .endif, q⟩ :: _) :=
      .keyword rfl hus
    obtain ⟨vs, hvs⟩ := hbody.exists_spoken hendif
    exact ⟨⟨.keyword .else_, p⟩ :: vs, .keyword rfl hvs⟩
  | _, _, _, _, @SelectionTail.endif p _, hus => ⟨⟨.keyword .endif, p⟩ :: _, .keyword rfl hus⟩

theorem Grammar.Body.exists_spoken : {ts rest us : List Token} → {body : Option Offer} →
    Body ts body rest → Spoken actor rest us → ∃ vs, Spoken actor ts vs
  | _, _, us, _, .nothing _, hus => ⟨us, hus⟩
  | _, _, us, _, @Body.line text p _ _ _ hjump, hus => by
    -- the name stands where the string stood
    cases hjump with
    | none => exact ⟨⟨.actor actor, p⟩ :: ⟨.string text, p⟩ :: us, .string rfl hus⟩
    | @some target q _ _ =>
      exact ⟨⟨.actor actor, p⟩ :: ⟨.string text, p⟩ :: ⟨.divert target, q⟩ :: us,
        .string rfl (.divert hus)⟩
  | _, _, _, _, @Body.selection p _ _ _ hsel, hus => hsel.exists_spoken hus rfl p

end

/-! ### A spoken selection is a conditional -/

/-- A line that is spoken is a block: the speech, and the divert if there is one. -/
theorem Grammar.Jump.block_spoken {line : Nat} {ts rest us : List Token} {divert : Option String}
    (h : Jump line ts divert rest) (hus : Spoken actor ts us) :
    ∃ rest', Block us (divert.toList.map .divert) rest' ∧ Spoken actor rest rest' := by
  cases h with
  | none => exact ⟨us, .nil us, hus⟩
  | some _ =>
    cases hus with
    | divert hrest => exact ⟨_, .cons (.simple .divert) (.nil _), hrest⟩

mutual

/-- **The derivation of a selection becomes the derivation of a conditional.** -/
theorem Grammar.Selection.conditional_spoken : {ts rest us : List Token} → {offer : Offer} →
    {word : Keyword} → {p : Position} → Selection ts offer rest →
    Spoken actor (⟨.keyword word, p⟩ :: ts) us →
    ∃ p' vs stmt rest', us = ⟨.keyword word, p'⟩ :: vs ∧ offer.spoken actor = [stmt] ∧
      Conditional p'.line vs stmt rest' ∧ Spoken actor rest rest'
  | _, _, _, _, _, _, .intro hfirst hsecond, hus => by
    cases hus with
    | keyword _ hts =>
      -- no condition is spoken apart from its keyword
      cases hts
    | condition _ hline hts =>
      obtain ⟨ts', hblock, hts'⟩ := hfirst.block_spoken hts
      obtain ⟨rest', htail, hrest⟩ := hsecond.tail_spoken hts'
      refine ⟨_, _, _, rest', rfl, rfl, ?_, hrest⟩
      exact .intro (.cons hline (.nil _)) (List.cons_ne_nil _ _) hblock htail

/-- What follows the first branch of a selection follows the first block of a conditional. -/
theorem Grammar.SelectionTail.tail_spoken : {ts rest us : List Token} → {second : Option Offer} →
    SelectionTail ts second rest → Spoken actor ts us →
    ∃ rest', ConditionalTail us (Offer.spoken? actor second) rest' ∧ Spoken actor rest rest'
  | _, _, us, _, @SelectionTail.elif _ _ _ offer hsel, hus => by
    obtain ⟨p', vs, stmt, rest', rfl, hstmt, hcond, hrest⟩ := hsel.conditional_spoken hus
    refine ⟨rest', ?_, hrest⟩
    rw [show Offer.spoken? actor (some offer) = [stmt] from hstmt]
    exact .elif hcond
  | _, _, _, _, .else_ hbody, hus => by
    cases hus with
    | keyword _ hts =>
      obtain ⟨_, hblock, hendif⟩ := hbody.block_spoken hts
      cases hendif with
      | keyword _ hrest => exact ⟨_, .else_ hblock, hrest⟩
      | condition htests => cases htests
    | condition htests => cases htests
  | _, _, _, _, .endif, hus => by
    cases hus with
    | keyword _ hrest => exact ⟨_, .endif, hrest⟩
    | condition htests => cases htests

/-- What a branch offers is spoken by a block. -/
theorem Grammar.Body.block_spoken : {ts rest us : List Token} → {body : Option Offer} →
    Body ts body rest → Spoken actor ts us →
    ∃ rest', Block us (Offer.spoken? actor body) rest' ∧ Spoken actor rest rest'
  | _, _, us, _, .nothing _, hus => ⟨us, .nil us, hus⟩
  | _, _, _, _, .line hjump, hus => by
    cases hus with
    | string hline hts =>
      obtain ⟨rest', hblock, hrest⟩ := hjump.block_spoken hts
      exact ⟨rest', .cons (.simple (.speech hline)) hblock, hrest⟩
  | _, _, _, _, @Body.selection _ _ _ offer hsel, hus => by
    obtain ⟨p', vs, stmt, rest', rfl, hstmt, hcond, hrest⟩ := hsel.conditional_spoken hus
    refine ⟨rest', ?_, hrest⟩
    rw [show Offer.spoken? actor (some offer) = [stmt] from hstmt]
    exact .cons (.conditional hcond) (.nil _)

end

/-! ### The two readers -/

/-- **Selections and conditionals nest alike.**  If all tokens from an `if` on are read as a
selection, then the same tokens, spoken by any actor, are parsed to one segment without a name, and
its only statement is the conditional that the selection stands for.  There is a way to speak them,
and it does not matter which way is taken. -/
theorem parse_of_spoken (actor : String) {stop p : Position} {ts : List Token} {offer : Offer}
    (h : Yields (takeOffer stop .if_ p ts) offer []) :
    ∃ condition first second, offer = .split condition first second ∧
      (∃ us, Spoken actor (⟨.keyword .if_, p⟩ :: ts) us) ∧
      ∀ us, Spoken actor (⟨.keyword .if_, p⟩ :: ts) us →
        parse us = .ok [⟨"", [.conditional [condition] (Offer.spoken? actor first)
          (Offer.spoken? actor second)]⟩] := by
  have hsel : Selection ts offer [] := takeOffer_yields_iff.mp h
  have hexists : ∃ us, Spoken actor (⟨.keyword .if_, p⟩ :: ts) us := hsel.exists_spoken .nil rfl p
  obtain ⟨condition, first, second, rfl⟩ : ∃ condition first second,
      offer = .split condition first second := by
    cases hsel
    exact ⟨_, _, _, rfl⟩
  refine ⟨condition, first, second, rfl, hexists, ?_⟩
  intro us hus
  obtain ⟨p', vs, stmt, rest', rfl, hstmt, hcond, hrest⟩ := hsel.conditional_spoken hus
  -- nothing was left of the selection, so nothing is left of the conditional
  cases hrest
  cases hstmt
  apply Script.parse
  exact ⟨_, [], [], .cons (.conditional hcond) (.nil []), .nil, rfl⟩

/-- A selection with an `if` inside its first branch, an `elif` without a line, and an `if` inside
the branch of its `else`.  The condition of the first keyword stands on the next line. -/
def stairsTokens : List Token :=
  [⟨.condition "lamp", ⟨1, 0⟩⟩, ⟨.keyword .if_, ⟨1, 7⟩⟩, ⟨.condition "oil", ⟨1, 10⟩⟩,
   ⟨.string "Go up.", ⟨2, 0⟩⟩, ⟨.divert "Attic", ⟨2, 9⟩⟩, ⟨.keyword .endif, ⟨3, 0⟩⟩,
   ⟨.keyword .elif, ⟨4, 0⟩⟩, ⟨.condition "late", ⟨4, 5⟩⟩, ⟨.keyword .else_, ⟨5, 0⟩⟩,
   ⟨.keyword .if_, ⟨5, 5⟩⟩, ⟨.condition "cat", ⟨5, 8⟩⟩, ⟨.keyword .else_, ⟨6, 0⟩⟩,
   ⟨.string "Wait.", ⟨6, 5⟩⟩, ⟨.keyword .endif, ⟨7, 0⟩⟩, ⟨.keyword .endif, ⟨8, 0⟩⟩]

/-- What these tokens offer. -/
def stairsOffer : Offer :=
  .split "lamp" (some (.split "oil" (some (.line "Go up." (some "Attic"))) none))
    (some (.split "late" none (some (.split "cat" none (some (.line "Wait." none))))))

/-- The same tokens, spoken by Ann. -/
def stairsSpoken : List Token :=
  [⟨.keyword .if_, ⟨0, 2⟩⟩, ⟨.condition "lamp", ⟨0, 5⟩⟩, ⟨.keyword .if_, ⟨1, 7⟩⟩,
   ⟨.condition "oil", ⟨1, 10⟩⟩, ⟨.actor "ann", ⟨2, 0⟩⟩, ⟨.string "Go up.", ⟨2, 5⟩⟩,
   ⟨.divert "Attic", ⟨2, 14⟩⟩, ⟨.keyword .endif, ⟨3, 0⟩⟩, ⟨.keyword .elif, ⟨4, 0⟩⟩,
   ⟨.condition "late", ⟨4, 5⟩⟩, ⟨.keyword .else_, ⟨5, 0⟩⟩, ⟨.keyword .if_, ⟨5, 5⟩⟩,
   ⟨.condition "cat", ⟨5, 8⟩⟩, ⟨.keyword .else_, ⟨6, 0⟩⟩, ⟨.actor "ann", ⟨6, 5⟩⟩,
   ⟨.string "Wait.", ⟨6, 10⟩⟩, ⟨.keyword .endif, ⟨7, 0⟩⟩, ⟨.keyword .endif, ⟨8, 0⟩⟩]

/-- An `elif` and an `if` behind an `else` are spoken alike. -/
theorem parse_stairsSpoken :
    Yields (takeOffer ⟨8, 0⟩ .if_ ⟨0, 2⟩ stairsTokens) stairsOffer [] ∧
      Spoken "ann" (⟨.keyword .if_, ⟨0, 2⟩⟩ :: stairsTokens) stairsSpoken ∧
      parse stairsSpoken = .ok [⟨"", [.conditional ["lamp"]
        [.conditional ["oil"] [.speech "ann" "Go up.", .divert "Attic"] []]
        [.conditional ["late"] [] [.conditional ["cat"] [] [.speech "ann" "Wait."]]]]⟩] := by
  have hyields : Yields (takeOffer ⟨8, 0⟩ .if_ ⟨0, 2⟩ stairsTokens) stairsOffer [] := by
    apply takeOffer_yields_iff.mpr
    exact .intro (.selection (.intro (.line (.some rfl)) .endif))
      (.elif (.intro (.nothing _) (.else_ (.selection (.intro (.nothing _)
        (.else_ (.line (.none _))))))))
  have hspoken : Spoken "ann" (⟨.keyword .if_, ⟨0, 2⟩⟩ :: stairsTokens) stairsSpoken := by
    refine .condition rfl rfl (.condition rfl rfl (.string rfl (.divert (.keyword rfl ?_))))
    refine .condition rfl rfl (.keyword rfl (.condition rfl rfl (.keyword rfl (.string rfl ?_))))
    exact .keyword rfl (.keyword rfl .nil)
  obtain ⟨condition, first, second, hoffer, -, hparse⟩ := parse_of_spoken "ann" hyields
  cases hoffer
  exact ⟨hyields, hspoken, hparse _ hspoken⟩

end Dialogue
