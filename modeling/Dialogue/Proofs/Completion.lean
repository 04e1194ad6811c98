import Dialogue.Proofs.Continuation
import Dialogue.Proofs.Failures
import Dialogue.Proofs.Parsing
import Mathlib.Data.Fintype.EquivFin

/-!
# Errors come as early as they can

A list of tokens that is refused is either the start of a script, and then the end of the tokens
alone is to blame, or it is lost: whatever follows, the error stays the same
(`completable_or_settled_of_parse`).

Every rule by which a configuration is stuck is on one of the two sides.  Either it looks at tokens
that are there, and then it still applies when more of them follow, or the tokens end where the rule
needs another one.  In the second case the phrase that is being read can be completed: a selection by
its body and an `endif` (`SelectionFails.settled_or_open`), any other clause by a single token.
Behind a complete clause all that can be missing is an `endif` for every open conditional
(`State.Nested.exists_closers`).
-/

namespace Dialogue

open Grammar Relation

variable {stop : Position}

/-! ### Selections -/

theorem BranchAt.append {ts rest : List Token} {body : Option Offer} (h : BranchAt ts body rest)
    (hne : rest ≠ []) (us : List Token) : BranchAt (ts ++ us) body (rest ++ us) := by
  cases h with
  | @line text p ts _ divert hjump hstop =>
    have hus : Apart [⟨.string text, p⟩] rest us := apart_of_ne_nil hne
    exact .line (hjump.append us)
      (fun hnone => hus.stops List.mem_cons_self (fun _ hu => hu.2) (hstop hnone))
  | selection hsel => exact .selection (hsel.append us)
  | nothing hend => exact .nothing hend

/-- A selection whose first branch is complete can be closed. -/
theorem Grammar.Body.exists_selection {ts : List Token} {body : Option Offer} (h : Body ts body [])
    (expr : String) (p : Position) :
    ∃ us offer, Selection (⟨.condition expr, p⟩ :: (ts ++ us)) offer [] :=
  ⟨[⟨.keyword .endif, p⟩], _, .intro (h.append _) .endif⟩

mutual

/-- **A selection that cannot be read is lost, or it can be completed.** -/
theorem SelectionFails.settled_or_open : {word : Keyword} → {start : Position} →
    {ts : List Token} → {e : Error} → SelectionFails stop word start ts e →
    (∀ stop' us, SelectionFails stop' word start (ts ++ us) e) ∨
      ∃ us offer, Selection (ts ++ us) offer []
  | _, start, [], _, .noCondition _ => by
    obtain ⟨us, offer, hsel⟩ := (Body.nothing []).exists_selection "true" start
    exact .inr ⟨⟨.condition "true", start⟩ :: us, offer, hsel⟩
  | _, _, _ :: _, _, .noCondition hstop =>
    .inl fun _ _ => .noCondition (stops_cons.mpr (stops_cons.mp hstop))
  | _, _, _, _, @SelectionFails.first _ _ _ p expr ts _ hfirst => by
    rcases hfirst.settled_or_open with hsettled | ⟨us, body, hbody⟩
    · exact .inl fun stop' us => .first (hsettled stop' us)
    · obtain ⟨us', offer, hsel⟩ := hbody.exists_selection expr p
      rw [List.append_assoc] at hsel
      exact .inr ⟨us ++ us', offer, hsel⟩
  | _, _, _, _, .elif hbranch hsel => by
    rcases hsel.settled_or_open with hsettled | ⟨us, offer, hsel'⟩
    · exact .inl fun stop' us => .elif (hbranch.append (List.cons_ne_nil _ _) us) (hsettled stop' us)
    · exact .inr ⟨us, _, .intro (hbranch.body.append us) (.elif hsel')⟩
  | _, _, _, _, @SelectionFails.second _ _ _ _ q _ _ _ _ _ hbranch hfails => by
    rcases hfails.settled_or_open with hsettled | ⟨us, body, hbody⟩
    · exact .inl fun stop' us =>
        .second (hbranch.append (List.cons_ne_nil _ _) us) (hsettled stop' us)
    · have hclosed := hbody.append [⟨.keyword .endif, q⟩]
      rw [List.append_assoc] at hclosed
      exact .inr ⟨us ++ [⟨.keyword .endif, q⟩], _, .intro (hbranch.body.append _) (.else_ hclosed)⟩
  | _, _, _, _, .noEndif hbranch hbranch' hkind =>
    .inl fun _ us => .noEndif (hbranch.append (List.cons_ne_nil _ _) us)
      (hbranch'.append (List.cons_ne_nil _ _) us) hkind
  | _, _, _, _, @SelectionFails.noEndifAtEnd _ _ _ _ q _ _ _ _ _ hbranch hbranch' =>
    .inr ⟨[⟨.keyword .endif, q⟩], _,
      .intro (hbranch.body.append _) (.else_ (hbranch'.body.append _))⟩
  | _, _, _, _, .badContinuation hbranch hend =>
    .inl fun _ us => .badContinuation (hbranch.append (List.cons_ne_nil _ _) us) hend
  | _, _, _, _, @SelectionFails.unclosed _ _ _ p expr _ _ hbranch =>
    .inr (hbranch.body.exists_selection expr p)

/-- A branch that cannot be read is lost, or it can be completed. -/
theorem BranchFails.settled_or_open : {ts : List Token} → {e : Error} → BranchFails stop ts e →
    (∀ stop' us, BranchFails stop' (ts ++ us) e) ∨ ∃ us body, Body (ts ++ us) body []
  | _, _, .selection hsel => by
    rcases hsel.settled_or_open with hsettled | ⟨us, offer, hsel'⟩
    · exact .inl fun stop' us => .selection (hsettled stop' us)
    · exact .inr ⟨us, some offer, .selection hsel'⟩
  | _, _, .badBody hstring hword => .inl fun _ _ => .badBody hstring hword
  | _, _, .atEnd => .inr ⟨[], none, .nothing _⟩

end

/-! ### Clauses -/

/-- **A clause that cannot be read is lost, or it can be completed to a statement.** -/
theorem ClauseFails.settled_or_open {ts : List Token} {e : Error} (h : ClauseFails stop ts e) :
    (∀ stop' us, ClauseFails stop' (ts ++ us) e) ∨
      ∃ us stmt, ClauseAt (ts ++ us) (.statement stmt) [] := by
  cases h with
  | unexpectedString => exact .inl fun _ _ => .unexpectedString
  | unexpectedCondition => exact .inl fun _ _ => .unexpectedCondition
  | @noSpeech actor p ts hstop =>
    cases ts with
    | nil => exact .inr ⟨[⟨.string "hello", p⟩], _, .statement (.speech rfl)⟩
    | cons t ts => exact .inl fun _ _ => .noSpeech (stops_cons.mpr (stops_cons.mp hstop))
  | badArgument hargs hline hnone =>
    exact .inl fun _ us => .badArgument (hargs.append us) hline hnone
  | badChoice hstring hif => exact .inl fun _ _ => .badChoice hstring hif
  | @noChoice p =>
    refine .inr ⟨[⟨.string "hello", p⟩], _, .statement (.choice (.nil _) ?_ (.none _) ?_)⟩
    · exact stops_nil _
    · exact fun _ => stops_nil _
  | selection hsel =>
    rcases hsel.settled_or_open with hsettled | ⟨us, offer, hsel'⟩
    · exact .inl fun stop' us => .selection (hsettled stop' us)
    · exact .inr ⟨us, _, .statement (.offer hsel')⟩

/-- An `elif` starts a clause, whatever conditions follow it. -/
theorem exists_chaining (p : Position) (ts : List Token) :
    ∃ exprs rest, ClauseAt (⟨.keyword .elif, p⟩ :: ts) (.chaining exprs) rest := by
  obtain ⟨hconds, hstop⟩ := takeConditions_spec p.line ts
  exact ⟨_, _, .chaining hconds hstop⟩

/-- **A clause that does not fit never will, or it lacks a condition and the tokens end there.** -/
theorem settled_or_open_of_stepFails {st : State} {t : Token} {ts rest : List Token}
    {clause : Clause} {e : Error} (hclause : ClauseAt (t :: ts) clause rest)
    (hfails : StepFails t.position st clause e) :
    (∀ stop' us, Stuck stop' (st, t :: (ts ++ us)) e) ∨
      ∃ us clause' st' events, ClauseAt (t :: (ts ++ us)) clause' [] ∧
        Steps t.position st clause' st' events := by
  cases hfails with
  | header =>
    cases hclause
    exact .inl fun _ _ => .step .header .header
  | noCondition =>
    cases hclause with
    | @opening p _ _ _ hconds hstop =>
      cases hconds
      cases ts with
      | nil =>
        have hopening : ClauseAt [⟨.keyword .if_, p⟩, ⟨.condition "true", p⟩] (.opening ["true"]) [] :=
          .opening (.cons rfl (.nil _)) (stops_nil _)
        exact .inr ⟨[⟨.condition "true", p⟩], _, _, _, hopening, .opening (List.cons_ne_nil _ _)⟩
      | cons t ts =>
        exact .inl fun _ _ =>
          .step (.opening (.nil _) (stops_cons.mpr (stops_cons.mp hstop))) .noCondition
  | elifWithoutIf =>
    cases hclause with
    | @chaining p =>
      refine .inl fun _ us => ?_
      obtain ⟨exprs, rest, hchaining⟩ := exists_chaining p (ts ++ us)
      exact .step hchaining .elifWithoutIf
  | elifAfterElse hphase =>
    cases hclause with
    | @chaining p =>
      refine .inl fun _ us => ?_
      obtain ⟨exprs, rest, hchaining⟩ := exists_chaining p (ts ++ us)
      exact .step hchaining (.elifAfterElse hphase)
  | noElifCondition hphase =>
    cases hclause with
    | @chaining p _ _ _ hconds hstop =>
      cases hconds
      cases ts with
      | nil =>
        have hchaining :
            ClauseAt [⟨.keyword .elif, p⟩, ⟨.condition "true", p⟩] (.chaining ["true"]) [] :=
          .chaining (.cons rfl (.nil _)) (stops_nil _)
        exact .inr ⟨[⟨.condition "true", p⟩], _, _, _, hchaining,
          .chaining hphase (List.cons_ne_nil _ _)⟩
      | cons t ts =>
        exact .inl fun _ _ =>
          .step (.chaining (.nil _) (stops_cons.mpr (stops_cons.mp hstop))) (.noElifCondition hphase)
  | elseWithoutIf =>
    cases hclause
    exact .inl fun _ _ => .step .otherwise .elseWithoutIf
  | duplicateElse hphase =>
    cases hclause
    exact .inl fun _ _ => .step .otherwise (.duplicateElse hphase)
  | endifWithoutIf =>
    cases hclause
    exact .inl fun _ _ => .step .closing .endifWithoutIf

/-- **A stuck configuration is lost, or a few tokens lead to the end of a clause.** -/
theorem Stuck.settled_or_open {st : State} {t : Token} {ts : List Token} {e : Error}
    (h : Stuck stop (st, t :: ts) e) (hst : st.Collecting) :
    (∀ stop' us, Stuck stop' (st, t :: (ts ++ us)) e) ∨
      ∃ us st', ∀ stop', Reaches stop' (st, t :: (ts ++ us)) (st', []) := by
  cases h with
  | clause hfails =>
    rcases hfails.settled_or_open with hsettled | ⟨us, stmt, hclause⟩
    · exact .inl fun stop' us => .clause (hsettled stop' us)
    · exact .inr ⟨us, _, fun _ => reaches_clause hclause (.statement hst)⟩
  | step hclause hfails =>
    rcases settled_or_open_of_stepFails hclause hfails with hsettled | hopen
    · exact .inl hsettled
    · obtain ⟨us, clause', st', events, hclause', hsteps⟩ := hopen
      exact .inr ⟨us, st', fun _ => reaches_clause hclause' hsteps⟩

/-! ### Closing what is open -/

theorem State.length_scopes_extend (st : State) (stmts : List Statement) :
    (st.extend stmts).scopes.length = st.scopes.length := by
  obtain ⟨earlier, current, scopes⟩ := st
  cases scopes <;> rfl

/-- **Enough `endif`s close everything that is open.** -/
theorem State.Nested.exists_closers {st : State} (h : st.Nested) (p : Position) :
    ∃ n earlier current, ∀ stop,
      Reaches stop (st, List.replicate n ⟨.keyword .endif, p⟩) (⟨earlier, current, []⟩, []) := by
  induction hlength : st.scopes.length using Nat.strong_induction_on generalizing st with
  | _ length ih =>
  obtain ⟨earlier, current, scopes⟩ := st
  cases scopes with
  | nil => exact ⟨0, earlier, current, fun _ => .refl⟩
  | cons s below =>
    have hstep := @Steps.closing p earlier current s below (h.collecting s rfl)
    have hnext := h.step hstep
    -- an `endif` takes off the innermost scope, and perhaps more
    obtain ⟨top, chain, outer, hscopes, -, -, -, hst'⟩ := h.closing hstep
    have hlt : (State.hand ⟨earlier, current, below⟩ s.conditional).scopes.length < length := by
      rw [hst', State.length_scopes_extend, ← hlength, hscopes]
      simp only [List.length_cons, List.length_append]
      omega
    obtain ⟨n, earlier', current', hreach⟩ := ih _ hlt hnext rfl
    refine ⟨n + 1, earlier', current', fun stop => ?_⟩
    exact (reaches_clause .closing hstep).trans (hreach stop)

/-- Tokens that end with a clause can be completed, on a line that none of them stands on. -/
theorem exists_parse_append_of_reaches {ts : List Token} {st : State}
    (h : Reaches stop (.initial, ts) (st, [])) : ∃ us segments, parse (ts ++ us) = .ok segments := by
  obtain ⟨line, hline⟩ := Infinite.exists_notMem_finset (ts.map Token.line).toFinset
  obtain ⟨n, earlier, current, hclose⟩ :=
    (State.nested_initial.reaches h).exists_closers ⟨line, 0⟩
  let us : List Token := List.replicate n ⟨.keyword .endif, ⟨line, 0⟩⟩
  have hapart : Apart ts [] us := by
    intro _ u hu t ht heq
    have hu' : u = ⟨.keyword .endif, ⟨line, 0⟩⟩ := List.eq_of_mem_replicate (List.mem_of_head? hu)
    apply hline
    rw [List.mem_toFinset, List.mem_map]
    exact ⟨t, ht, by rw [← heq, hu']; rfl⟩
  have hreach : Reaches (lastPosition (ts ++ us)) (.initial, ts ++ us) (⟨earlier, current, []⟩, []) :=
    (h.append hapart _).trans (hclose _)
  refine ⟨us, State.dropEmptyLead (earlier ++ [current]), ?_⟩
  rw [parse_eq]
  exact run_bind_finish_eq_ok_iff.mpr ⟨earlier, current, hreach, rfl⟩

/-! ### Earliest errors -/

/-- **Errors are found at the earliest token.**  If tokens are refused, then either they can be
completed to a script, or the error stays as it is whatever follows, and not both. -/
theorem completable_or_settled_of_parse {ts : List Token} {e : Error} (h : parse ts = .error e) :
    ((∃ us segments, parse (ts ++ us) = .ok segments) ∨ ∀ us, parse (ts ++ us) = .error e) ∧
      ¬ ((∃ us segments, parse (ts ++ us) = .ok segments) ∧ ∀ us, parse (ts ++ us) = .error e) := by
  constructor
  · obtain ⟨⟨st, rest⟩, hreach, hstuck⟩ := parse_eq_error_iff.mp h
    cases rest with
    | nil => exact .inl (exists_parse_append_of_reaches hreach)
    | cons t rest =>
      have hst : st.Collecting := (State.nested_initial.reaches hreach).collecting
      have happend : ∀ us stop', Reaches stop' (.initial, ts ++ us) (st, t :: (rest ++ us)) :=
        fun us stop' => hreach.append (apart_of_ne_nil (List.cons_ne_nil _ _)) stop'
      rcases hstuck.settled_or_open hst with hsettled | ⟨us, st', hopen⟩
      · exact .inr fun us => parse_eq_error_iff.mpr ⟨_, happend us _, hsettled _ us⟩
      · have hclause := (happend us ⟨0, 0⟩).trans (hopen ⟨0, 0⟩)
        obtain ⟨us', segments, hparse⟩ := exists_parse_append_of_reaches hclause
        rw [List.append_assoc] at hparse
        exact .inl ⟨us ++ us', segments, hparse⟩
  · rintro ⟨⟨us, segments, hok⟩, hsettled⟩
    rw [hsettled us] at hok
    cases hok

/-- Tokens that end inside the second branch of a choice, inside a conditional. -/
def brokenOff : List Token :=
  [⟨.keyword .if_, ⟨0, 0⟩⟩, ⟨.condition "seen", ⟨0, 3⟩⟩, ⟨.marker, ⟨1, 0⟩⟩, ⟨.keyword .if_, ⟨1, 2⟩⟩,
   ⟨.condition "key", ⟨1, 5⟩⟩, ⟨.string "open", ⟨2, 2⟩⟩, ⟨.keyword .else_, ⟨3, 0⟩⟩]

theorem completable_or_settled_brokenOff :
    parse brokenOff = .error (.syntactic .missingBody ⟨3, 0⟩) ∧
      ((∃ us segments, parse (brokenOff ++ us) = .ok segments) ∨
        ∀ us, parse (brokenOff ++ us) = .error (.syntactic .missingBody ⟨3, 0⟩)) ∧
      ¬ ((∃ us segments, parse (brokenOff ++ us) = .ok segments) ∧
        ∀ us, parse (brokenOff ++ us) = .error (.syntactic .missingBody ⟨3, 0⟩)) := by
  have hparse : parse brokenOff = .error (.syntactic .missingBody ⟨3, 0⟩) := by cbv
  exact ⟨hparse, completable_or_settled_of_parse hparse⟩

end Dialogue
