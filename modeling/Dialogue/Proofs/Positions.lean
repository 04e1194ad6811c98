import Dialogue.Proofs.Failures
import Mathlib.Data.List.Forall2

/-!
# Tokens at other positions

The parser looks at positions in one way only: it compares the lines of two tokens.  So tokens may be
put somewhere else without changing what they denote, as long as those that stood on one line still
do and those that did not still do not.

This is a statement about two runs.  A relation `R` between positions says where things are moved; it
has to keep lines apart (`KeepsLines`).  Tokens, errors, scopes and states *correspond* if they are
the same but for positions related by `R`.  What stands at the start of tokens, and what is wrong
there, carries over to corresponding tokens rule by rule, hence so does every step and every run
(`Reaches.transfer`, `Stuck.transfer`).

Finished segments are never looked at again, so states may also differ in the segments that stand in
front of the others.
-/

namespace Dialogue

open Grammar Relation

/-! ### Correspondence -/

/-- Positions on one line are moved to one line, and positions on different lines to different lines.
-/
def KeepsLines (R : Position → Position → Prop) : Prop :=
  ∀ ⦃p p' q q' : Position⦄, R p p' → R q q' → (p.line = q.line ↔ p'.line = q'.line)

/-- The same token at another position. -/
inductive Token.Corresponds (R : Position → Position → Prop) : Token → Token → Prop
  | intro {kind : Token.Kind} {p p' : Position} : R p p' → Corresponds R ⟨kind, p⟩ ⟨kind, p'⟩

/-- The same error at another position. -/
inductive Error.Corresponds (R : Position → Position → Prop) : Error → Error → Prop
  | lexical {fault : LexicalFault} {p p' : Position} : R p p' →
      Corresponds R (.lexical fault p) (.lexical fault p')
  | syntactic {fault : SyntaxFault} {p p' : Position} : R p p' →
      Corresponds R (.syntactic fault p) (.syntactic fault p')
  | internal {fault : InternalFault} : Corresponds R (.internal fault) (.internal fault)

/-- The same tokens at other positions. -/
def TokensCorrespond (R : Position → Position → Prop) : List Token → List Token → Prop :=
  List.Forall₂ (Token.Corresponds R)

variable {R : Position → Position → Prop}

theorem Grammar.Stops.transfer {P P' : Token → Prop} {ts ts' : List Token} (h : Stops P ts)
    (hts : TokensCorrespond R ts ts')
    (hP : ∀ kind p p', R p p' → P' ⟨kind, p'⟩ → P ⟨kind, p⟩) : Stops P' ts' := by
  obtain _ | ⟨⟨hp⟩, -⟩ := hts
  · exact stops_nil _
  · exact stops_cons.mpr fun ht => stops_cons.mp h (hP _ _ _ hp ht)

/-! ### Phrases -/

section LinePhrases

variable (hR : KeepsLines R)

include hR

theorem Grammar.Stops.onLine {p p' : Position} (hp : R p p') {ts ts' : List Token}
    (h : Stops (·.line = p.line) ts) (hts : TokensCorrespond R ts ts') :
    Stops (·.line = p'.line) ts' :=
  h.transfer hts fun _ _ _ hq hline => (hR hq hp).mpr hline

theorem Grammar.Stops.conditionOn {p p' : Position} (hp : R p p') {ts ts' : List Token}
    (h : Stops (ConditionOn p.line) ts) (hts : TokensCorrespond R ts ts') :
    Stops (ConditionOn p'.line) ts' :=
  h.transfer hts fun _ _ _ hq ht => ⟨ht.1, (hR hq hp).mpr ht.2⟩

theorem Grammar.Stops.divertOn {p p' : Position} (hp : R p p') {ts ts' : List Token}
    (h : Stops (DivertOn p.line) ts) (hts : TokensCorrespond R ts ts') :
    Stops (DivertOn p'.line) ts' :=
  h.transfer hts fun _ _ _ hq ht => ⟨ht.1, (hR hq hp).mpr ht.2⟩

theorem Grammar.Conditions.transfer {p p' : Position} (hp : R p p') {ts ts' rest : List Token}
    {exprs : List String} (h : Conditions p.line ts exprs rest)
    (hts : TokensCorrespond R ts ts') :
    ∃ rest', Conditions p'.line ts' exprs rest' ∧ TokensCorrespond R rest rest' := by
  induction h generalizing ts' with
  | nil ts => exact ⟨ts', .nil _, hts⟩
  | cons hline _ ih =>
    obtain _ | ⟨⟨hq⟩, hts⟩ := hts
    obtain ⟨rest', hconds, hrest⟩ := ih hts
    exact ⟨rest', .cons ((hR hq hp).mp hline) hconds, hrest⟩

theorem Grammar.Arguments.transfer {p p' : Position} (hp : R p p') {ts ts' rest : List Token}
    {args : List String} (h : Arguments p.line ts args rest) (hts : TokensCorrespond R ts ts') :
    ∃ rest', Arguments p'.line ts' args rest' ∧ TokensCorrespond R rest rest' := by
  induction h generalizing ts' with
  | nil ts => exact ⟨ts', .nil _, hts⟩
  | symbol hline _ ih =>
    obtain _ | ⟨⟨hq⟩, hts⟩ := hts
    obtain ⟨rest', hargs, hrest⟩ := ih hts
    exact ⟨rest', .symbol ((hR hq hp).mp hline) hargs, hrest⟩
  | string hline _ ih =>
    obtain _ | ⟨⟨hq⟩, hts⟩ := hts
    obtain ⟨rest', hargs, hrest⟩ := ih hts
    exact ⟨rest', .string ((hR hq hp).mp hline) hargs, hrest⟩

theorem Grammar.Jump.transfer {p p' : Position} (hp : R p p') {ts ts' rest : List Token}
    {divert : Option String} (h : Jump p.line ts divert rest) (hts : TokensCorrespond R ts ts') :
    ∃ rest', Jump p'.line ts' divert rest' ∧ TokensCorrespond R rest rest' := by
  cases h with
  | none => exact ⟨ts', .none _, hts⟩
  | some hline =>
    obtain _ | ⟨⟨hq⟩, hts⟩ := hts
    exact ⟨_, .some ((hR hq hp).mp hline), hts⟩

end LinePhrases

mutual

theorem Grammar.Selection.transfer (hR : KeepsLines R) : {ts ts' rest : List Token} →
    {offer : Offer} → Selection ts offer rest → TokensCorrespond R ts ts' →
    ∃ rest', Selection ts' offer rest' ∧ TokensCorrespond R rest rest'
  | _, _, _, _, .intro hfirst hsecond, .cons ⟨_⟩ hts => by
    obtain ⟨ts₁, hfirst', hts₁⟩ := hfirst.transfer hR hts
    obtain ⟨rest', hsecond', hrest⟩ := hsecond.transfer hR hts₁
    exact ⟨rest', .intro hfirst' hsecond', hrest⟩

theorem Grammar.SelectionTail.transfer (hR : KeepsLines R) : {ts ts' rest : List Token} →
    {second : Option Offer} → SelectionTail ts second rest → TokensCorrespond R ts ts' →
    ∃ rest', SelectionTail ts' second rest' ∧ TokensCorrespond R rest rest'
  | _, _, _, _, .elif h, .cons ⟨_⟩ hts => by
    obtain ⟨rest', h', hrest⟩ := h.transfer hR hts
    exact ⟨rest', .elif h', hrest⟩
  | _, _, _, _, .else_ h, .cons ⟨_⟩ hts => by
    obtain ⟨_, h', _ | ⟨⟨_⟩, hrest⟩⟩ := h.transfer hR hts
    exact ⟨_, .else_ h', hrest⟩
  | _, _, _, _, .endif, .cons ⟨_⟩ hts => ⟨_, .endif, hts⟩

theorem Grammar.Body.transfer (hR : KeepsLines R) : {ts ts' rest : List Token} →
    {body : Option Offer} → Body ts body rest → TokensCorrespond R ts ts' →
    ∃ rest', Body ts' body rest' ∧ TokensCorrespond R rest rest'
  | _, _, _, _, .nothing _, hts => ⟨_, .nothing _, hts⟩
  | _, _, _, _, .line hjump, .cons ⟨hp⟩ hts => by
    obtain ⟨rest', hjump', hrest⟩ := hjump.transfer hR hp hts
    exact ⟨rest', .line hjump', hrest⟩
  | _, _, _, _, .selection h, .cons ⟨_⟩ hts => by
    obtain ⟨rest', h', hrest⟩ := h.transfer hR hts
    exact ⟨rest', .selection h', hrest⟩

end

section Clauses

variable (hR : KeepsLines R) {ts ts' rest : List Token}

include hR

theorem Grammar.Simple.transfer {stmt : Statement} (h : Simple ts stmt rest)
    (hts : TokensCorrespond R ts ts') :
    ∃ rest', Simple ts' stmt rest' ∧ TokensCorrespond R rest rest' := by
  cases h with
  | speech hline =>
    obtain _ | ⟨⟨hp⟩, _ | ⟨⟨hq⟩, hrest⟩⟩ := hts
    exact ⟨_, .speech ((hR hq hp).mp hline), hrest⟩
  | divert =>
    obtain _ | ⟨⟨_⟩, hrest⟩ := hts
    exact ⟨_, .divert, hrest⟩
  | script =>
    obtain _ | ⟨⟨_⟩, hrest⟩ := hts
    exact ⟨_, .script, hrest⟩
  | call hargs hstop =>
    obtain _ | ⟨⟨hp⟩, hts⟩ := hts
    obtain ⟨rest', hargs', hrest⟩ := hargs.transfer hR hp hts
    exact ⟨rest', .call hargs' (hstop.onLine hR hp hrest), hrest⟩
  | choice hconds hstop hjump habsorbed =>
    obtain _ | ⟨⟨_⟩, _ | ⟨⟨hq⟩, hts⟩⟩ := hts
    obtain ⟨ts₁, hconds', hts₁⟩ := hconds.transfer hR hq hts
    obtain ⟨rest', hjump', hrest⟩ := hjump.transfer hR hq hts₁
    exact ⟨rest', .choice hconds' (hstop.conditionOn hR hq hts₁) hjump'
      (fun hnone => (habsorbed hnone).divertOn hR hq hrest), hrest⟩
  | offer hsel =>
    obtain _ | ⟨⟨_⟩, _ | ⟨⟨_⟩, hts⟩⟩ := hts
    obtain ⟨rest', hsel', hrest⟩ := hsel.transfer hR hts
    exact ⟨rest', .offer hsel', hrest⟩

/-- **The clause at the start of tokens is the clause at the start of corresponding ones.** -/
theorem ClauseAt.transfer {clause : Clause} (h : ClauseAt ts clause rest)
    (hts : TokensCorrespond R ts ts') :
    ∃ rest', ClauseAt ts' clause rest' ∧ TokensCorrespond R rest rest' := by
  cases h with
  | header =>
    obtain _ | ⟨⟨_⟩, hrest⟩ := hts
    exact ⟨_, .header, hrest⟩
  | opening hconds hstop =>
    obtain _ | ⟨⟨hp⟩, hts⟩ := hts
    obtain ⟨rest', hconds', hrest⟩ := hconds.transfer hR hp hts
    exact ⟨rest', .opening hconds' (hstop.conditionOn hR hp hrest), hrest⟩
  | chaining hconds hstop =>
    obtain _ | ⟨⟨hp⟩, hts⟩ := hts
    obtain ⟨rest', hconds', hrest⟩ := hconds.transfer hR hp hts
    exact ⟨rest', .chaining hconds' (hstop.conditionOn hR hp hrest), hrest⟩
  | otherwise =>
    obtain _ | ⟨⟨_⟩, hrest⟩ := hts
    exact ⟨_, .otherwise, hrest⟩
  | closing =>
    obtain _ | ⟨⟨_⟩, hrest⟩ := hts
    exact ⟨_, .closing, hrest⟩
  | statement hsimple =>
    obtain ⟨rest', hsimple', hrest⟩ := hsimple.transfer hR hts
    exact ⟨rest', .statement hsimple', hrest⟩

/-! ### Failures -/

theorem BranchAt.transfer {body : Option Offer} (h : BranchAt ts body rest)
    (hts : TokensCorrespond R ts ts') :
    ∃ rest', BranchAt ts' body rest' ∧ TokensCorrespond R rest rest' := by
  cases h with
  | line hjump habsorbed =>
    obtain _ | ⟨⟨hp⟩, hts⟩ := hts
    obtain ⟨rest', hjump', hrest⟩ := hjump.transfer hR hp hts
    exact ⟨rest', .line hjump' (fun hnone => (habsorbed hnone).divertOn hR hp hrest), hrest⟩
  | selection hsel =>
    obtain _ | ⟨⟨_⟩, hts⟩ := hts
    obtain ⟨rest', hsel', hrest⟩ := hsel.transfer hR hts
    exact ⟨rest', .selection hsel', hrest⟩
  | nothing hend =>
    obtain _ | ⟨⟨hp⟩, hts⟩ := hts
    exact ⟨_, .nothing hend, .cons ⟨hp⟩ hts⟩

end Clauses

variable {stop stop' : Position}

mutual

theorem SelectionFails.transfer (hR : KeepsLines R) (hstop : R stop stop') : {word : Keyword} →
    {start start' : Position} → {ts ts' : List Token} → {e : Error} →
    SelectionFails stop word start ts e → R start start' → TokensCorrespond R ts ts' →
    ∃ e', SelectionFails stop' word start' ts' e' ∧ Error.Corresponds R e e'
  | _, _, _, _, _, _, .noCondition hnone, hstart, hts =>
    ⟨_, .noCondition (hnone.transfer hts fun _ _ _ _ h => h), .syntactic hstart⟩
  | _, _, _, _, _, _, .first hfails, _, .cons ⟨_⟩ hts => by
    obtain ⟨e', hfails', he⟩ := hfails.transfer hR hstop hts
    exact ⟨e', .first hfails', he⟩
  | _, _, _, _, _, _, .elif hbranch hfails, _, .cons ⟨_⟩ hts => by
    obtain ⟨_, hbranch', _ | ⟨⟨hq⟩, hts'⟩⟩ := hbranch.transfer hR hts
    obtain ⟨e', hfails', he⟩ := hfails.transfer hR hstop hq hts'
    exact ⟨e', .elif hbranch' hfails', he⟩
  | _, _, _, _, _, _, .second hbranch hfails, _, .cons ⟨_⟩ hts => by
    obtain ⟨_, hbranch', _ | ⟨⟨_⟩, hts'⟩⟩ := hbranch.transfer hR hts
    obtain ⟨e', hfails', he⟩ := hfails.transfer hR hstop hts'
    exact ⟨e', .second hbranch' hfails', he⟩
  | _, _, _, _, _, _, .noEndif hfirst hsecond hkind, _, .cons ⟨_⟩ hts => by
    obtain ⟨_, hfirst', _ | ⟨⟨_⟩, hts'⟩⟩ := hfirst.transfer hR hts
    obtain ⟨_, hsecond', _ | ⟨⟨ht⟩, _⟩⟩ := hsecond.transfer hR hts'
    exact ⟨_, .noEndif hfirst' hsecond' hkind, .syntactic ht⟩
  | _, _, _, _, _, _, .noEndifAtEnd hfirst hsecond, _, .cons ⟨_⟩ hts => by
    obtain ⟨_, hfirst', _ | ⟨⟨_⟩, hts'⟩⟩ := hfirst.transfer hR hts
    obtain ⟨_, hsecond', _ | _⟩ := hsecond.transfer hR hts'
    exact ⟨_, .noEndifAtEnd hfirst' hsecond', .syntactic hstop⟩
  | _, _, _, _, _, _, .badContinuation hbranch hend, _, .cons ⟨_⟩ hts => by
    obtain ⟨_, hbranch', _ | ⟨⟨ht⟩, _⟩⟩ := hbranch.transfer hR hts
    exact ⟨_, .badContinuation hbranch' hend, .syntactic ht⟩
  | _, _, _, _, _, _, .unclosed hbranch, hstart, .cons ⟨_⟩ hts => by
    obtain ⟨_, hbranch', _ | _⟩ := hbranch.transfer hR hts
    exact ⟨_, .unclosed hbranch', .syntactic hstart⟩

theorem BranchFails.transfer (hR : KeepsLines R) (hstop : R stop stop') :
    {ts ts' : List Token} → {e : Error} → BranchFails stop ts e → TokensCorrespond R ts ts' →
    ∃ e', BranchFails stop' ts' e' ∧ Error.Corresponds R e e'
  | _, _, _, .selection hfails, .cons ⟨hp⟩ hts => by
    obtain ⟨e', hfails', he⟩ := hfails.transfer hR hstop hp hts
    exact ⟨e', .selection hfails', he⟩
  | _, _, _, .badBody hstring hkeyword, .cons ⟨hp⟩ _ =>
    ⟨_, .badBody hstring hkeyword, .syntactic hp⟩
  | _, _, _, .atEnd, .nil => ⟨_, .atEnd, .syntactic hstop⟩

end

/-- **What is wrong at the start of tokens is wrong at the start of corresponding ones.** -/
theorem ClauseFails.transfer (hR : KeepsLines R) (hstop : R stop stop') {ts ts' : List Token}
    {e : Error} (h : ClauseFails stop ts e) (hts : TokensCorrespond R ts ts') :
    ∃ e', ClauseFails stop' ts' e' ∧ Error.Corresponds R e e' := by
  cases h with
  | unexpectedString =>
    obtain _ | ⟨⟨hp⟩, _⟩ := hts
    exact ⟨_, .unexpectedString, .syntactic hp⟩
  | unexpectedCondition =>
    obtain _ | ⟨⟨hp⟩, _⟩ := hts
    exact ⟨_, .unexpectedCondition, .syntactic hp⟩
  | noSpeech hnone =>
    obtain _ | ⟨⟨hp⟩, hts⟩ := hts
    have hnone' : Stops (StringOn _) _ :=
      hnone.transfer hts fun _ _ _ hq ht => ⟨ht.1, (hR hq hp).mpr ht.2⟩
    exact ⟨_, .noSpeech hnone', .syntactic hp⟩
  | badArgument hargs hline hnone =>
    obtain _ | ⟨⟨hp⟩, hts⟩ := hts
    obtain ⟨_, hargs', _ | ⟨⟨ht⟩, _⟩⟩ := hargs.transfer hR hp hts
    exact ⟨_, .badArgument hargs' ((hR ht hp).mp hline) hnone, .syntactic ht⟩
  | badChoice hstring hif =>
    obtain _ | ⟨⟨_⟩, _ | ⟨⟨ht⟩, _⟩⟩ := hts
    exact ⟨_, .badChoice hstring hif, .syntactic ht⟩
  | noChoice =>
    obtain _ | ⟨⟨hp⟩, _ | _⟩ := hts
    exact ⟨_, .noChoice, .syntactic hp⟩
  | selection hfails =>
    obtain _ | ⟨⟨_⟩, _ | ⟨⟨hq⟩, hts⟩⟩ := hts
    obtain ⟨e', hfails', he⟩ := hfails.transfer hR hstop hq hts
    exact ⟨e', .selection hfails', he⟩

/-! ### States -/

/-- The same scope, opened at another position. -/
inductive Scope.Corresponds (R : Position → Position → Prop) : Scope → Scope → Prop
  | intro {word : Keyword} {p p' : Position} {phase : Phase} {conditions : List String}
      {consequent alternate : List Statement} : R p p' →
      Corresponds R ⟨word, p, phase, conditions, consequent, alternate⟩
        ⟨word, p', phase, conditions, consequent, alternate⟩

/-- The same state but for where the scopes were opened, and for the segments `front` and `front'`
that come first. -/
inductive State.Corresponds (R : Position → Position → Prop) (front front' : List Segment) :
    State → State → Prop
  | intro {earlier : List Segment} {current : Segment} {scopes scopes' : List Scope} :
      List.Forall₂ (Scope.Corresponds R) scopes scopes' →
      Corresponds R front front' ⟨front ++ earlier, current, scopes⟩
        ⟨front' ++ earlier, current, scopes'⟩

variable {front front' : List Segment} {st st' : State}

theorem Scope.Corresponds.phase_eq {s s' : Scope} (h : Scope.Corresponds R s s') :
    s'.phase = s.phase := by
  obtain ⟨_⟩ := h
  rfl

theorem Scope.Corresponds.conditional_eq {s s' : Scope} (h : Scope.Corresponds R s s') :
    s'.conditional = s.conditional := by
  obtain ⟨_⟩ := h
  rfl

theorem Scope.Corresponds.withPhase {s s' : Scope} (h : Scope.Corresponds R s s')
    (phase : Phase) : Scope.Corresponds R { s with phase := phase } { s' with phase := phase } := by
  obtain ⟨hp⟩ := h
  exact ⟨hp⟩

theorem Scope.Corresponds.extend {s s' : Scope} (h : Scope.Corresponds R s s')
    (stmts : List Statement) : Scope.Corresponds R (s.extend stmts) (s'.extend stmts) := by
  obtain @⟨_, _, _, phase, _, _, _, hp⟩ := h
  cases phase <;> exact ⟨hp⟩

theorem State.Corresponds.collecting (h : State.Corresponds R front front' st st')
    (hst : st.Collecting) : st'.Collecting := by
  obtain ⟨_ | ⟨hs, _⟩⟩ := h
  · exact State.collecting_of_scopes_eq_nil rfl
  · rintro _ ⟨⟩
    rw [hs.phase_eq]
    exact hst _ rfl

theorem State.Corresponds.extend (h : State.Corresponds R front front' st st')
    (stmts : List Statement) :
    State.Corresponds R front front' (st.extend stmts) (st'.extend stmts) := by
  obtain ⟨_ | ⟨hs, hbelow⟩⟩ := h
  · exact ⟨.nil⟩
  · exact ⟨.cons (hs.extend stmts) hbelow⟩

/-- A completed conditional is handed to the same place. -/
theorem State.Corresponds.hand {stmt : Statement} (h : State.Corresponds R front front' st st') :
    State.Corresponds R front front' (st.hand stmt) (st'.hand stmt) := by
  obtain @⟨earlier, current, scopes, scopes', hscopes⟩ := h
  -- the statement grows on its way down through the closed scopes, so the induction is for all of them
  induction hscopes generalizing stmt with
  | nil => exact ⟨.nil⟩
  | @cons s s' below below' hs hbelow ih =>
    by_cases hphase : s.phase = .closed
    · rw [State.hand_closed hphase, State.hand_closed (hs.phase_eq.trans hphase)]
      obtain ⟨_⟩ := hs
      exact ih
    · have hst : State.Collecting ⟨front ++ earlier, current, s :: below⟩ := by
        rintro _ ⟨⟩
        exact hphase
      have h : State.Corresponds R front front' ⟨front ++ earlier, current, s :: below⟩
          ⟨front' ++ earlier, current, s' :: below'⟩ := ⟨.cons hs hbelow⟩
      rw [hst.hand, (h.collecting hst).hand]
      exact h.extend [stmt]

theorem Steps.transfer {p p' : Position} {clause : Clause} {next : State} {events : List Event}
    (h : Steps p st clause next events) (hp : R p p')
    (hst : State.Corresponds R front front' st st') :
    ∃ next' events', Steps p' st' clause next' events' ∧
      State.Corresponds R front front' next next' := by
  cases h with
  | header =>
    obtain ⟨_ | _⟩ := hst
    refine ⟨_, _, .header, ?_⟩
    rw [List.append_assoc, List.append_assoc]
    exact ⟨.nil⟩
  | opening hne =>
    obtain ⟨hscopes⟩ := hst
    exact ⟨_, _, .opening hne, ⟨.cons ⟨hp⟩ hscopes⟩⟩
  | chaining hphase hne =>
    obtain ⟨_ | ⟨hs, hbelow⟩⟩ := hst
    exact ⟨_, _, .chaining (hs.phase_eq.trans hphase) hne,
      ⟨.cons ⟨hp⟩ (.cons (hs.withPhase .closed) hbelow)⟩⟩
  | otherwise hphase =>
    obtain ⟨_ | ⟨hs, hbelow⟩⟩ := hst
    exact ⟨_, _, .otherwise (hs.phase_eq.trans hphase), ⟨.cons (hs.withPhase .alternate) hbelow⟩⟩
  | closing hphase =>
    obtain ⟨_ | ⟨hs, hbelow⟩⟩ := hst
    refine ⟨_, _, .closing (hs.phase_eq ▸ hphase), ?_⟩
    rw [hs.conditional_eq]
    exact State.Corresponds.hand ⟨hbelow⟩
  | statement hcollecting =>
    exact ⟨_, _, .statement (hst.collecting hcollecting), hst.extend _⟩

theorem StepFails.transfer {p p' : Position} {clause : Clause} {e : Error}
    (h : StepFails p st clause e) (hp : R p p')
    (hst : State.Corresponds R front front' st st') :
    ∃ e', StepFails p' st' clause e' ∧ Error.Corresponds R e e' := by
  cases h with
  | header =>
    obtain ⟨_ | ⟨⟨hs⟩, _⟩⟩ := hst
    exact ⟨_, .header, .syntactic hs⟩
  | noCondition => exact ⟨_, .noCondition, .syntactic hp⟩
  | elifWithoutIf =>
    obtain ⟨_ | _⟩ := hst
    exact ⟨_, .elifWithoutIf, .syntactic hp⟩
  | elifAfterElse hphase =>
    obtain ⟨_ | ⟨hs, _⟩⟩ := hst
    exact ⟨_, .elifAfterElse (hs.phase_eq.trans hphase), .syntactic hp⟩
  | noElifCondition hphase =>
    obtain ⟨_ | ⟨hs, _⟩⟩ := hst
    exact ⟨_, .noElifCondition (hs.phase_eq.trans hphase), .syntactic hp⟩
  | elseWithoutIf =>
    obtain ⟨_ | _⟩ := hst
    exact ⟨_, .elseWithoutIf, .syntactic hp⟩
  | duplicateElse hphase =>
    obtain ⟨_ | ⟨hs, _⟩⟩ := hst
    exact ⟨_, .duplicateElse (hs.phase_eq.trans hphase), .syntactic hp⟩
  | endifWithoutIf =>
    obtain ⟨_ | _⟩ := hst
    exact ⟨_, .endifWithoutIf, .syntactic hp⟩

/-! ### Runs -/

/-- The same configuration at other positions. -/
def ConfigurationsCorrespond (R : Position → Position → Prop) (front front' : List Segment)
    (c c' : State × List Token) : Prop :=
  State.Corresponds R front front' c.1 c'.1 ∧ TokensCorrespond R c.2 c'.2

theorem Advances.transfer (hR : KeepsLines R) {c d c' : State × List Token}
    (h : Advances stop c d) (hc : ConfigurationsCorrespond R front front' c c')
    (stop' : Position) :
    ∃ d', Advances stop' c' d' ∧ ConfigurationsCorrespond R front front' d d' := by
  obtain ⟨hclause, hstep⟩ := h
  obtain ⟨st', ts'⟩ := c'
  obtain ⟨hst, hts⟩ := hc
  obtain ⟨rest', hclause', hrest⟩ := (takeClause_yields_iff.mp hclause).transfer hR hts
  obtain _ | ⟨⟨hp⟩, _⟩ := hts
  obtain ⟨next', events', hstep', hnext⟩ := (step_eq_ok_iff.mp hstep).transfer hp hst
  exact ⟨(next', rest'), .clause (takeClause_yields_iff.mpr hclause') (step_eq_ok_iff.mpr hstep'),
    hnext, hrest⟩

/-- **Runs over corresponding tokens go through corresponding configurations.** -/
theorem Reaches.transfer (hR : KeepsLines R) {c d c' : State × List Token}
    (h : Reaches stop c d) (hc : ConfigurationsCorrespond R front front' c c')
    (stop' : Position) :
    ∃ d', Reaches stop' c' d' ∧ ConfigurationsCorrespond R front front' d d' := by
  induction h with
  | refl => exact ⟨c', .refl, hc⟩
  | tail _ hadv ih =>
    obtain ⟨d₁, hreach, hd₁⟩ := ih
    obtain ⟨d', hadv', hd'⟩ := hadv.transfer hR hd₁ stop'
    exact ⟨d', hreach.tail hadv', hd'⟩

/-- Corresponding configurations are stuck for the same reason. -/
theorem Stuck.transfer (hR : KeepsLines R) (hstop : R stop stop') {c c' : State × List Token}
    {e : Error} (h : Stuck stop c e) (hc : ConfigurationsCorrespond R front front' c c') :
    ∃ e', Stuck stop' c' e' ∧ Error.Corresponds R e e' := by
  obtain ⟨st', ts'⟩ := c'
  obtain ⟨hst, hts⟩ := hc
  cases h with
  | clause hfails =>
    obtain ⟨e', hfails', he⟩ := hfails.transfer hR hstop hts
    obtain _ | _ := hts
    exact ⟨e', .clause hfails', he⟩
  | step hclause hfails =>
    obtain ⟨rest', hclause', _⟩ := hclause.transfer hR hts
    obtain _ | ⟨⟨hp⟩, _⟩ := hts
    obtain ⟨e', hfails', he⟩ := hfails.transfer hp hst
    exact ⟨e', .step hclause' hfails', he⟩
  | unclosed =>
    obtain ⟨_ | ⟨⟨hs⟩, _⟩⟩ := hst
    obtain _ | _ := hts
    exact ⟨_, .unclosed, .syntactic hs⟩

/-! ### Results -/

/-- Both results are values, related by `V`, or both are errors, which correspond. -/
inductive ResultsCorrespond (R : Position → Position → Prop) {α : Type} (V : α → α → Prop) :
    Except Error α → Except Error α → Prop
  | ok {a a' : α} : V a a' → ResultsCorrespond R V (.ok a) (.ok a')
  | error {e e' : Error} : Error.Corresponds R e e' → ResultsCorrespond R V (.error e) (.error e')

theorem ResultsCorrespond.mono {α : Type} {V W : α → α → Prop} {x x' : Except Error α}
    (h : ResultsCorrespond R V x x') (hV : ∀ a a', V a a' → W a a') :
    ResultsCorrespond R W x x' := by
  cases h with
  | ok ha => exact .ok (hV _ _ ha)
  | error he => exact .error he

theorem ResultsCorrespond.bind {α β : Type} {V : α → α → Prop} {W : β → β → Prop}
    {x x' : Except Error α} {f f' : α → Except Error β} (h : ResultsCorrespond R V x x')
    (hf : ∀ a a', V a a' → ResultsCorrespond R W (f a) (f' a')) :
    ResultsCorrespond R W (x.bind f) (x'.bind f') := by
  cases h with
  | ok ha => exact hf _ _ ha
  | error he => exact .error he

theorem ResultsCorrespond.map {α β : Type} {V : α → α → Prop} {W : β → β → Prop}
    {x x' : Except Error α} {f f' : α → β} (h : ResultsCorrespond R V x x')
    (hf : ∀ a a', V a a' → W (f a) (f' a')) : ResultsCorrespond R W (x.map f) (x'.map f') := by
  cases h with
  | ok ha => exact .ok (hf _ _ ha)
  | error he => exact .error he

/-- The same segments behind those that come first. -/
def SameBehind (front front' segments segments' : List Segment) : Prop :=
  ∃ last, segments = State.dropEmptyLead (front ++ last) ∧
    segments' = State.dropEmptyLead (front' ++ last)

/-- **Corresponding configurations end with corresponding results.** -/
theorem results_correspond_of_configurations (hR : KeepsLines R) (hstop : R stop stop')
    (hst : st.Nested) {ts ts' : List Token}
    (hc : ConfigurationsCorrespond R front front' (st, ts) (st', ts')) :
    ResultsCorrespond R (SameBehind front front') ((st.run stop ts).result.bind State.finish)
      ((st'.run stop' ts').result.bind State.finish) := by
  cases hresult : (st.run stop ts).result.bind State.finish with
  | ok segments =>
    obtain ⟨earlier, current, hreach, rfl⟩ := run_bind_finish_eq_ok_iff.mp hresult
    obtain ⟨⟨fin', rest'⟩, hreach', hfin, hrest⟩ := hreach.transfer hR hc stop'
    obtain @⟨last, _, _, _, _ | _⟩ := hfin
    obtain _ | _ := hrest
    rw [run_bind_finish_eq_ok_iff.mpr ⟨_, _, hreach', rfl⟩]
    exact .ok ⟨last ++ [current], by rw [List.append_assoc], by rw [List.append_assoc]⟩
  | error e =>
    obtain ⟨c, hreach, hstuck⟩ := hst.run_bind_finish_eq_error_iff.mp hresult
    obtain ⟨c', hreach', hc'⟩ := hreach.transfer hR hc stop'
    obtain ⟨e', hstuck', he⟩ := hstuck.transfer hR hstop hc'
    rw [run_result_of_reaches hreach', hstuck'.run_bind_finish]
    exact .error he

theorem lastPosition_corresponds {ts ts' : List Token} (hts : TokensCorrespond R ts ts')
    (hne : ts ≠ []) : R (lastPosition ts) (lastPosition ts') := by
  induction hts with
  | nil => exact absurd rfl hne
  | @cons t t' ts ts' ht hts ih =>
    cases hts with
    | nil =>
      obtain ⟨hp⟩ := ht
      exact hp
    | @cons u u' us us' hu hus =>
      rw [lastPosition, lastPosition, List.getLast?_cons_cons, List.getLast?_cons_cons]
      exact ih (List.cons_ne_nil _ _)

/-- **What tokens denote does not depend on where they stand**, as long as lines are kept. -/
theorem parse_corresponds (hR : KeepsLines R) {ts ts' : List Token}
    (hts : TokensCorrespond R ts ts') : ResultsCorrespond R Eq (parse ts) (parse ts') := by
  by_cases hne : ts = []
  · subst hne
    obtain _ | _ := hts
    rw [parse_eq, State.run]
    exact .ok rfl
  · have hresults : ResultsCorrespond R (SameBehind [] []) (parse ts) (parse ts') := by
      rw [parse_eq, parse_eq]
      exact results_correspond_of_configurations hR (lastPosition_corresponds hts hne)
        State.nested_initial ⟨State.Corresponds.intro .nil, hts⟩
    refine hresults.mono ?_
    rintro _ _ ⟨last, rfl, rfl⟩
    rfl

end Dialogue
