import Dialogue.Proofs.Positions
import Dialogue.Proofs.Unfinished

/-!
# Where errors are reported

Every error of the parser stands at a token.  That needs no look at the parser: what it answers
corresponds to itself when no token moves (`parse_corresponds`), so the positions that it reports
are among those it was given.

For the two errors about something unclosed, the grammar says which token it is.  An unclosed
conditional is reported at the innermost conditional of the unfinished script in front of the header
or of the end (`parse_eq_unclosedConditional_iff`), an unclosed choice at the keyword whose branch
was read last (`parse_eq_unclosedChoice_iff`).  Both are equivalences, so the place is the only one
that the grammar allows.  `report_of_parse_error` says it about the messages.
-/

namespace Dialogue

open Grammar Relation

variable {stop : Position}

/-! ### Unclosed conditionals -/

/-- The place where an open conditional is noticed: the tokens end, or a header follows. -/
def Grammar.CutOff (rest : List Token) : Prop :=
  rest = [] ∨ ∃ name p rest', rest = ⟨.header name, p⟩ :: rest'

/-- Where the script is cut off, the innermost open conditional has its latest `if` or `elif` at
`p`. -/
def Grammar.UnclosedConditional (ts : List Token) (p : Position) : Prop :=
  ∃ inElse opens rest, Unfinished ts (⟨p, inElse⟩ :: opens) rest ∧ CutOff rest

mutual

/-- No selection is refused for an open conditional. -/
theorem SelectionFails.fault_ne : {word : Keyword} → {start : Position} → {ts : List Token} →
    {e : Error} → SelectionFails stop word start ts e →
    ∀ p, e ≠ .syntactic .unclosedConditional p
  | _, _, _, _, .first hfails => hfails.fault_ne
  | _, _, _, _, .elif _ hfails => hfails.fault_ne
  | _, _, _, _, .second _ hfails => hfails.fault_ne
  | _, _, _, _, .noCondition _ => by simp
  | _, _, _, _, .noEndif _ _ _ => by simp
  | _, _, _, _, .noEndifAtEnd _ _ => by simp
  | _, _, _, _, .badContinuation _ _ => by simp
  | _, _, _, _, .unclosed _ => by simp

theorem BranchFails.fault_ne : {ts : List Token} → {e : Error} → BranchFails stop ts e →
    ∀ p, e ≠ .syntactic .unclosedConditional p
  | _, _, .selection hfails => hfails.fault_ne
  | _, _, .badBody _ _ => by simp
  | _, _, .atEnd => by simp

end

/-- The parser stops for an open conditional just in front of a header and at the end, and names its
innermost scope. -/
theorem Stuck.exists_scope {c : State × List Token} {p : Position}
    (h : Stuck stop c (.syntactic .unclosedConditional p)) :
    CutOff c.2 ∧ ∃ s below, c.1.scopes = s :: below ∧ s.openedAt = p := by
  cases h with
  | clause hfails =>
    cases hfails with
    | selection hsel => exact absurd rfl (hsel.fault_ne p)
  | step hclause hfails =>
    cases hfails
    cases hclause
    exact ⟨.inr ⟨_, _, _, rfl⟩, _, _, rfl, rfl⟩
  | unclosed => exact ⟨.inl rfl, _, _, rfl, rfl⟩

theorem Grammar.CutOff.stops_condition {rest : List Token} (h : CutOff rest) (line : Nat) :
    Stops (ConditionOn line) rest := by
  obtain rfl | ⟨name, p, rest', rfl⟩ := h
  · exact stops_nil _
  · refine stops_cons.mpr ?_
    rintro ⟨⟨expr, ⟨⟩⟩, -⟩

/-- **An unclosed conditional is reported at the innermost conditional that is open** where a header
or the end of the tokens cuts the script off. -/
theorem parse_eq_unclosedConditional_iff {ts : List Token} {p : Position} :
    parse ts = .error (.syntactic .unclosedConditional p) ↔ UnclosedConditional ts p := by
  rw [parse_eq_error_iff]
  constructor
  · rintro ⟨⟨st, rest⟩, hreach, hstuck⟩
    obtain ⟨hrest, s, below, hscopes, rfl⟩ := hstuck.exists_scope
    have hs : s.phase ≠ .closed :=
      (State.nested_initial.reaches hreach).collecting s (by rw [hscopes]; rfl)
    obtain ⟨inElse, -, hopens⟩ := exists_openConditionals_cons hs below
    have hunfinished := unfinished_of_reaches hreach
    rw [hscopes, hopens] at hunfinished
    exact ⟨inElse, _, rest, hunfinished, hrest⟩
  · rintro ⟨inElse, opens, rest, hunfinished, hrest⟩
    obtain ⟨⟨earlier, current, scopes⟩, hreach, hst, hopens⟩ :=
      hunfinished.exists_reaches (lastPosition ts) hrest.stops_condition
    obtain ⟨s, below, rfl, rfl, -⟩ := hst.exists_scope hopens
    refine ⟨_, hreach, ?_⟩
    obtain rfl | ⟨name, q, rest', rfl⟩ := hrest
    · exact .unclosed
    · exact .step .header .header

/-! ### Unclosed choices -/

/-- The start of a selection up to the end of the tokens.  The first place is that of the `if` or
`elif` in front of it, the second that of the keyword whose branch is read last. -/
inductive Grammar.UnfinishedSelection : Position → List Token → Position → Prop
  | last {start p : Position} {expr : String} {ts : List Token} {offer : Offer} :
      Body ts (some offer) [] → UnfinishedSelection start (⟨.condition expr, p⟩ :: ts) start
  | first {start p q place : Position} {expr : String} {ts : List Token} :
      UnfinishedSelection q ts place →
      UnfinishedSelection start (⟨.condition expr, p⟩ :: ⟨.keyword .if_, q⟩ :: ts) place
  | elif {start p q place : Position} {expr : String} {ts ts' : List Token}
      {first : Option Offer} : Body ts first (⟨.keyword .elif, q⟩ :: ts') →
      UnfinishedSelection q ts' place → UnfinishedSelection start (⟨.condition expr, p⟩ :: ts) place
  | second {start p q r place : Position} {expr : String} {ts ts' : List Token}
      {first : Option Offer} :
      Body ts first (⟨.keyword .else_, r⟩ :: ⟨.keyword .if_, q⟩ :: ts') →
      UnfinishedSelection q ts' place → UnfinishedSelection start (⟨.condition expr, p⟩ :: ts) place

/-- The tokens end inside a choice, and of its keywords the one at `p` has the last branch. -/
def Grammar.UnclosedChoice (ts : List Token) (p : Position) : Prop :=
  ∃ opens marker start rest,
    Unfinished ts opens (⟨.marker, marker⟩ :: ⟨.keyword .if_, start⟩ :: rest) ∧
    UnfinishedSelection start rest p

/-- A body in front of a keyword that ends it is the branch that stands there. -/
theorem Grammar.Body.branchAt {ts rest : List Token} {body : Option Offer} (h : Body ts body rest)
    (hrest : AtBranchEnd rest) : BranchAt ts body rest := by
  have hyields : Yields (takeBranch (lastPosition ts) ts) body rest := h.yields hrest
  exact branchAt_of_yields hyields

mutual

/-- A choice that is reported as unclosed ends with a branch, and is reported at the keyword of that
branch. -/
theorem SelectionFails.unfinished : {word : Keyword} → {start : Position} → {ts : List Token} →
    {e : Error} → SelectionFails stop word start ts e →
    ∀ p, e = .syntactic .unclosedChoice p → UnfinishedSelection start ts p
  | _, _, _, _, .first hfails => fun p he => by
    obtain ⟨q, ts', rfl, h⟩ := hfails.unfinished p he
    exact .first h
  | _, _, _, _, .elif hbranch hfails => fun p he => .elif hbranch.body (hfails.unfinished p he)
  | _, _, _, _, .second hbranch hfails => fun p he => by
    obtain ⟨q, ts', rfl, h⟩ := hfails.unfinished p he
    exact .second hbranch.body h
  | _, _, _, _, .unclosed hbranch => by
    rintro _ ⟨⟩
    -- a branch is empty only in front of a keyword, and here the tokens are at their end
    cases hbranch with
    | line hjump _ => exact .last (.line hjump)
    | selection hsel => exact .last (.selection hsel)
  | _, _, _, _, .noCondition _ => by simp
  | _, _, _, _, .noEndif _ _ _ => by simp
  | _, _, _, _, .noEndifAtEnd _ _ => by simp
  | _, _, _, _, .badContinuation _ _ => by simp

theorem BranchFails.unfinished : {ts : List Token} → {e : Error} → BranchFails stop ts e →
    ∀ p, e = .syntactic .unclosedChoice p →
      ∃ q ts', ts = ⟨.keyword .if_, q⟩ :: ts' ∧ UnfinishedSelection q ts' p
  | _, _, .selection hfails => fun p he => ⟨_, _, rfl, hfails.unfinished p he⟩
  | _, _, .badBody _ _ => by simp
  | _, _, .atEnd => by simp

end

/-- A selection that the end of the tokens cuts off behind a branch is reported as unclosed. -/
theorem Grammar.UnfinishedSelection.fails (stop : Position) {start p : Position} {ts : List Token}
    (h : UnfinishedSelection start ts p) (word : Keyword) :
    SelectionFails stop word start ts (.syntactic .unclosedChoice p) := by
  induction h generalizing word with
  | last hbody =>
    cases hbody with
    | line hjump => exact .unclosed (.line hjump fun _ => stops_nil _)
    | selection hsel => exact .unclosed (.selection hsel)
  | first _ ih => exact .first (.selection (ih .if_))
  | elif hbody _ ih => exact .elif (hbody.branchAt ⟨_, rfl, .inl rfl⟩) (ih .elif)
  | second hbody _ ih =>
    exact .second (hbody.branchAt ⟨_, rfl, .inr (.inl rfl)⟩) (.selection (ih .if_))

/-- **An unclosed choice is reported at the `if` or `elif` whose branch is the last one** in front of
the end of the tokens. -/
theorem parse_eq_unclosedChoice_iff {ts : List Token} {p : Position} :
    parse ts = .error (.syntactic .unclosedChoice p) ↔ UnclosedChoice ts p := by
  rw [parse_eq_error_iff]
  constructor
  · rintro ⟨⟨st, rest⟩, hreach, hstuck⟩
    have hunfinished := unfinished_of_reaches hreach
    cases hstuck with
    | clause hfails =>
      cases hfails with
      | selection hsel => exact ⟨_, _, _, _, hunfinished, hsel.unfinished p rfl⟩
    | step _ hfails => cases hfails
  · rintro ⟨opens, marker, start, rest, hunfinished, hsel⟩
    have hmarker (line : Nat) :
        Stops (ConditionOn line) (⟨.marker, marker⟩ :: ⟨.keyword .if_, start⟩ :: rest) := by
      refine stops_cons.mpr ?_
      rintro ⟨⟨expr, ⟨⟩⟩, -⟩
    obtain ⟨st, hreach, -⟩ := hunfinished.exists_reaches (lastPosition ts) hmarker
    exact ⟨_, hreach, .clause (.selection (hsel.fails _ .if_))⟩

/-! ### Positions and messages -/

/-- **Every error stands at a token.**  The parser maps tokens that do not move to an error that
does not move, so a position that it reports is one that it was given. -/
theorem exists_token_of_parse_error {ts : List Token} {fault : SyntaxFault} {p : Position}
    (h : parse ts = .error (.syntactic fault p)) : ∃ t ∈ ts, t.position = p := by
  let R (q q' : Position) : Prop := q = q' ∧ ∃ t ∈ ts, t.position = q
  have hR : KeepsLines R := by
    rintro q _ r _ ⟨rfl, -⟩ ⟨rfl, -⟩
    rfl
  have hts : TokensCorrespond R ts ts :=
    List.forall₂_same.mpr fun t ht => .intro ⟨rfl, t, ht, rfl⟩
  have hresults := parse_corresponds hR hts
  rw [h] at hresults
  obtain _ | ⟨_ | ⟨-, hp⟩⟩ := hresults
  exact hp

/-- The two messages about something unclosed are told from all others by their first letters. -/
theorem SyntaxFault.take_detail_eq_iff (fault : SyntaxFault) :
    fault.detail.toList.take 3 = ['u', 'n', 'c'] ↔
      fault = .unclosedConditional ∨ fault = .unclosedChoice := by
  delta detail
  cases fault with
  | badChoice found => cases found <;> simp
  | missingEndif found => cases found <;> simp
  | _ => simp

theorem SyntaxFault.eq_of_detail_eq {fault fault' : SyntaxFault}
    (hfault : fault' = .unclosedConditional ∨ fault' = .unclosedChoice)
    (h : fault.detail = fault'.detail) : fault = fault' := by
  have hstart := fault'.take_detail_eq_iff.mpr hfault
  rw [← h, fault.take_detail_eq_iff] at hstart
  -- of the two messages one is longer
  obtain rfl | rfl := hstart <;> obtain rfl | rfl := hfault
  · rfl
  · exact absurd h (by decide)
  · exact absurd h (by decide)
  · rfl

/-- **Errors blame real tokens, and what is unclosed the right one.**  An error of the parser stands
at one of the tokens.  If it is an unclosed conditional, it stands at the latest `if` or `elif` of
the innermost conditional that is open at the header or at the end where it is noticed, and at
nothing else.  If it is an unclosed choice, it stands at the `if` or `elif` whose branch is the last
one in front of the end. -/
theorem report_of_parse_error {ts : List Token} {e : Error} (h : parse ts = .error e) :
    ∃ detail p, e.report = .syntactic detail p ∧ (∃ t ∈ ts, t.position = p) ∧
      (detail = "unclosed conditional" → ∀ q, UnclosedConditional ts q ↔ q = p) ∧
      (detail = "unclosed conditional choice" → ∀ q, UnclosedChoice ts q ↔ q = p) := by
  obtain ⟨fault, p, rfl⟩ := parse_onlySyntactic ts e h
  refine ⟨fault.detail, p, rfl, exists_token_of_parse_error h, fun hdetail q => ?_,
    fun hdetail q => ?_⟩
  · obtain rfl : fault = .unclosedConditional := SyntaxFault.eq_of_detail_eq (.inl rfl) hdetail
    rw [← parse_eq_unclosedConditional_iff, h]
    simp [eq_comm]
  · obtain rfl : fault = .unclosedChoice := SyntaxFault.eq_of_detail_eq (.inr rfl) hdetail
    rw [← parse_eq_unclosedChoice_iff, h]
    simp [eq_comm]

/-- A header behind the `else` of a conditional.  In front of it another conditional and a choice
with keywords of its own are complete. -/
def cutTokens : List Token :=
  [⟨.keyword .if_, ⟨0, 0⟩⟩, ⟨.condition "day", ⟨0, 4⟩⟩,
    ⟨.keyword .if_, ⟨1, 2⟩⟩, ⟨.condition "late", ⟨1, 6⟩⟩,
    ⟨.keyword .elif, ⟨2, 2⟩⟩, ⟨.condition "early", ⟨2, 8⟩⟩,
    ⟨.keyword .if_, ⟨3, 4⟩⟩, ⟨.condition "rain", ⟨3, 8⟩⟩, ⟨.keyword .endif, ⟨3, 14⟩⟩,
    ⟨.marker, ⟨4, 4⟩⟩, ⟨.keyword .if_, ⟨4, 6⟩⟩, ⟨.condition "key", ⟨4, 10⟩⟩,
    ⟨.string "Go.", ⟨4, 15⟩⟩, ⟨.keyword .endif, ⟨4, 21⟩⟩,
    ⟨.keyword .else_, ⟨5, 2⟩⟩, ⟨.header "Hall", ⟨6, 0⟩⟩]

/-- The error stands at the `elif` that the `else` belongs to. -/
theorem unclosedConditional_cutTokens_iff :
    parse cutTokens = .error (.syntactic .unclosedConditional ⟨2, 2⟩) ∧
      ∀ q, UnclosedConditional cutTokens q ↔ q = ⟨2, 2⟩ := by
  have hparse : parse cutTokens = .error (.syntactic .unclosedConditional ⟨2, 2⟩) := by cbv
  obtain ⟨detail, p, hreport, -, hplace, -⟩ := report_of_parse_error hparse
  obtain ⟨rfl, rfl⟩ := Report.syntactic.inj hreport
  exact ⟨hparse, hplace rfl⟩

end Dialogue
