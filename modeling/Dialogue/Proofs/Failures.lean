import Dialogue.Proofs.Nesting

/-!
# Why tokens are refused

The errors of the parser, each with the tokens that cause it.  What stands at the start of tokens is
said by `BranchAt` and `ClauseAt`; what is wrong there is said by `SelectionFails`, `BranchFails`
and `ClauseFails`, with one rule for every error of a reader, and by `StepFails` for a clause that
does not fit the scopes that are open.  Each relation is equivalent to the error of its function, so
statements about errors are proved by cases on them, without the code of the readers.

A configuration is *stuck* if one of these rules applies to it, or if the tokens end inside a
conditional.  `parse_eq_error_iff` says that an error is the error of the stuck configuration that
the parser runs into.
-/

namespace Dialogue

open Grammar Relation

variable {stop : Position}

/-! ### Branches -/

/-- The branch that `ts` starts with, and the tokens behind it. -/
inductive BranchAt : List Token → Option Offer → List Token → Prop
  | line {text : String} {p : Position} {ts rest : List Token} {divert : Option String} :
      Jump p.line ts divert rest → (divert = none → Stops (DivertOn p.line) rest) →
      BranchAt (⟨.string text, p⟩ :: ts) (some (.line text divert)) rest
  | selection {p : Position} {ts rest : List Token} {offer : Offer} : Selection ts offer rest →
      BranchAt (⟨.keyword .if_, p⟩ :: ts) (some offer) rest
  | nothing {t : Token} {ts : List Token} : EndsBranch t → BranchAt (t :: ts) none (t :: ts)

theorem BranchAt.body {ts rest : List Token} {body : Option Offer} (h : BranchAt ts body rest) :
    Body ts body rest := by
  cases h with
  | line hjump _ => exact .line hjump
  | selection hsel => exact .selection hsel
  | nothing _ => exact .nothing _

/-- A branch that is read is the one that stands there. -/
theorem branchAt_of_yields {ts rest : List Token} {body : Option Offer}
    (h : Yields (takeBranch stop ts) body rest) : BranchAt ts body rest := by
  unfold takeBranch at h
  split at h
  · rename_i text p ts
    obtain ⟨_, ⟨⟩, rfl, rfl⟩ := h
    have hjump := takeDivert_spec p.line ts
    exact .line hjump.1 hjump.2
  · obtain ⟨offer, rfl, hoffer⟩ := yields_map_behind_iff.mp h
    exact .selection (takeOffer_yields_iff.mp hoffer)
  · rename_i word p ts hif
    obtain ⟨_, ⟨⟩, rfl, rfl⟩ := h
    refine .nothing ?_
    cases word with
    | if_ => exact absurd rfl hif
    | elif => exact .inl rfl
    | else_ => exact .inr (.inl rfl)
    | endif => exact .inr (.inr rfl)
  · obtain ⟨r, hr, -⟩ := h
    cases hr
  · obtain ⟨r, hr, -⟩ := h
    cases hr

/-- The branch that stands somewhere is read there. -/
theorem BranchAt.yields {ts rest : List Token} {body : Option Offer} (h : BranchAt ts body rest)
    (stop : Position) : Yields (takeBranch stop ts) body rest := by
  cases h with
  | @line text _ _ _ _ hjump hstop =>
    obtain ⟨hvalue, hrest⟩ := takeDivert_eq hjump hstop
    rw [takeBranch]
    exact ⟨_, rfl, congrArg (fun divert => some (Offer.line text divert)) hvalue, hrest⟩
  | selection hsel =>
    rw [takeBranch]
    exact yields_map_behind_iff.mpr ⟨_, rfl, takeOffer_yields_iff.mpr hsel⟩
  | nothing hend =>
    rw [takeBranch_of_atBranchEnd ⟨_, rfl, hend⟩]
    exact ⟨_, rfl, rfl, rfl⟩

mutual

/-- Why no selection can be read behind `word`, which stands at `start`. -/
inductive SelectionFails (stop : Position) : Keyword → Position → List Token → Error → Prop
  | noCondition {word : Keyword} {start : Position} {ts : List Token} :
      Stops (∃ expr, ·.kind = .condition expr) ts →
      SelectionFails stop word start ts (.syntactic (.missingCondition word) start)
  | first {word : Keyword} {start p : Position} {expr : String} {ts : List Token} {e : Error} :
      BranchFails stop ts e → SelectionFails stop word start (⟨.condition expr, p⟩ :: ts) e
  | elif {word : Keyword} {start p q : Position} {expr : String} {ts ts' : List Token}
      {first : Option Offer} {e : Error} : BranchAt ts first (⟨.keyword .elif, q⟩ :: ts') →
      SelectionFails stop .elif q ts' e →
      SelectionFails stop word start (⟨.condition expr, p⟩ :: ts) e
  | second {word : Keyword} {start p q : Position} {expr : String} {ts ts' : List Token}
      {first : Option Offer} {e : Error} : BranchAt ts first (⟨.keyword .else_, q⟩ :: ts') →
      BranchFails stop ts' e → SelectionFails stop word start (⟨.condition expr, p⟩ :: ts) e
  | noEndif {word : Keyword} {start p q : Position} {expr : String} {t : Token}
      {ts ts' rest : List Token} {first second : Option Offer} :
      BranchAt ts first (⟨.keyword .else_, q⟩ :: ts') → BranchAt ts' second (t :: rest) →
      t.kind ≠ .keyword .endif →
      SelectionFails stop word start (⟨.condition expr, p⟩ :: ts)
        (.syntactic (.missingEndif (some t.kind)) t.position)
  | noEndifAtEnd {word : Keyword} {start p q : Position} {expr : String} {ts ts' : List Token}
      {first second : Option Offer} : BranchAt ts first (⟨.keyword .else_, q⟩ :: ts') →
      BranchAt ts' second [] →
      SelectionFails stop word start (⟨.condition expr, p⟩ :: ts)
        (.syntactic (.missingEndif none) stop)
  | badContinuation {word : Keyword} {start p : Position} {expr : String} {t : Token}
      {ts rest : List Token} {first : Option Offer} : BranchAt ts first (t :: rest) →
      ¬ EndsBranch t →
      SelectionFails stop word start (⟨.condition expr, p⟩ :: ts)
        (.syntactic (.badContinuation t.kind) t.position)
  | unclosed {word : Keyword} {start p : Position} {expr : String} {ts : List Token}
      {first : Option Offer} : BranchAt ts first [] →
      SelectionFails stop word start (⟨.condition expr, p⟩ :: ts)
        (.syntactic .unclosedChoice start)

/-- Why no branch can be read. -/
inductive BranchFails (stop : Position) : List Token → Error → Prop
  | selection {p : Position} {ts : List Token} {e : Error} : SelectionFails stop .if_ p ts e →
      BranchFails stop (⟨.keyword .if_, p⟩ :: ts) e
  | badBody {t : Token} {ts : List Token} : (∀ text, t.kind ≠ .string text) →
      (∀ word, t.kind ≠ .keyword word) →
      BranchFails stop (t :: ts) (.syntactic (.badBody t.kind) t.position)
  | atEnd : BranchFails stop [] (.syntactic .missingBody stop)

end

theorem kind_ne_of_forall {t : Token} {kind : Token.Kind} (h : ∀ p, t = ⟨kind, p⟩ → False) :
    t.kind ≠ kind := by
  rintro rfl
  exact h t.position rfl

theorem exceptMap_eq_error_iff {α β : Type} {x : Except Error α} {f : α → β} {e : Error} :
    x.map f = .error e ↔ x = .error e := by
  cases x with
  | error e' =>
    constructor
    · rintro ⟨⟩
      rfl
    · rintro ⟨⟩
      rfl
  | ok a =>
    constructor
    · rintro ⟨⟩
    · rintro ⟨⟩

theorem branchAt_of_takeBranch {ts rest : List Token} {r : Taken (Option Offer) ts}
    (h : takeBranch stop ts = .ok r) (hrest : r.rest = rest) : BranchAt ts r.value rest :=
  branchAt_of_yields ⟨r, h, rfl, hrest⟩

/-- **Where reading a selection or a branch fails, a rule says why.**  By the recursion of the two
readers; where one of them succeeds there is nothing to show. -/
theorem fails_of_takeOffer_takeBranch (stop : Position) :
    (∀ word start ts e, takeOffer stop word start ts = .error e →
        SelectionFails stop word start ts e) ∧
      ∀ ts e, takeBranch stop ts = .error e → BranchFails stop ts e := by
  apply takeOffer.mutual_induct_unfolding stop
    (fun word start ts x => ∀ e, x = .error e → SelectionFails stop word start ts e)
    (fun ts x => ∀ e, x = .error e → BranchFails stop ts e)
  case case1 =>
    rintro word start expr p ts e hfirst ih _ ⟨⟩
    exact .first (ih e hfirst)
  case case2 =>
    rintro word start expr p ts first hfirst q ts' hrest e helif - ih _ ⟨⟩
    exact .elif (branchAt_of_takeBranch hfirst hrest) (ih e helif)
  case case4 =>
    rintro word start expr p ts first hfirst q ts' hrest e hsecond - ih _ ⟨⟩
    exact .second (branchAt_of_takeBranch hfirst hrest) (ih e hsecond)
  case case6 =>
    -- something else than an `endif` follows the branch of an `else`
    rintro word start expr p ts first hfirst q ts' hrest second hsecond t rest hkind hend - - _ ⟨⟩
    exact .noEndif (branchAt_of_takeBranch hfirst hrest) (branchAt_of_takeBranch hsecond hend)
      (kind_ne_of_forall hkind)
  case case7 =>
    rintro word start expr p ts first hfirst q ts' hrest second hsecond hend - - _ ⟨⟩
    exact .noEndifAtEnd (branchAt_of_takeBranch hfirst hrest) (branchAt_of_takeBranch hsecond hend)
  case case9 =>
    -- none of the three keywords follows the first branch
    rintro word start expr p ts first hfirst t rest helif helse hendif hrest - _ ⟨⟩
    refine .badContinuation (branchAt_of_takeBranch hfirst hrest) ?_
    rintro (hkind | hkind | hkind)
    · exact kind_ne_of_forall helif hkind
    · exact kind_ne_of_forall helse hkind
    · exact kind_ne_of_forall hendif hkind
  case case10 =>
    rintro word start expr p ts first hfirst hrest - _ ⟨⟩
    exact .unclosed (branchAt_of_takeBranch hfirst hrest)
  case case11 =>
    rintro word start ts hts _ ⟨⟩
    refine .noCondition ?_
    rintro ⟨kind, p⟩ ht ⟨expr, rfl⟩
    obtain ⟨ts', rfl⟩ := List.head?_eq_some_iff.mp ht
    exact hts expr p ts' rfl
  case case13 =>
    intro p ts ih e h
    exact .selection (ih e (exceptMap_eq_error_iff.mp h))
  case case15 =>
    rintro t ts hstring - hword _ ⟨⟩
    exact .badBody (fun text => kind_ne_of_forall (hstring text))
      (fun word => kind_ne_of_forall (hword word))
  case case16 =>
    rintro _ ⟨⟩
    exact .atEnd
  all_goals
    intros
    contradiction

mutual

/-- A selection that fails by a rule is not read. -/
theorem SelectionFails.takeOffer_eq : {word : Keyword} → {start : Position} → {ts : List Token} →
    {e : Error} → SelectionFails stop word start ts e → takeOffer stop word start ts = .error e
  | _, _, ts, _, .noCondition hstop => by
    unfold takeOffer
    split
    · exact absurd ⟨_, rfl⟩ (stops_cons.mp hstop)
    · rfl
  | _, _, _, _, .first hfirst => by
    rw [takeOffer, hfirst.takeBranch_eq]
  | _, _, _, _, .elif hbranch hsel => by
    obtain ⟨⟨first, _, _⟩, hfirst, rfl, rfl⟩ := hbranch.yields stop
    rw [takeOffer, hfirst]
    simp only
    rw [hsel.takeOffer_eq]
  | _, _, _, _, .second hbranch hfails => by
    obtain ⟨⟨first, _, _⟩, hfirst, rfl, rfl⟩ := hbranch.yields stop
    rw [takeOffer, hfirst]
    simp only
    rw [hfails.takeBranch_eq]
  | _, _, _, _, .noEndif hbranch hbranch' hkind => by
    obtain ⟨⟨first, _, _⟩, hfirst, rfl, rfl⟩ := hbranch.yields stop
    obtain ⟨⟨second, _, _⟩, hsecond, rfl, rfl⟩ := hbranch'.yields stop
    rw [takeOffer, hfirst]
    simp only
    rw [hsecond]
    simp only
    split
    · rename_i heq
      cases heq
      exact absurd rfl hkind
    · rename_i heq
      cases heq
      rfl
    · rename_i heq
      cases heq
  | _, _, _, _, .noEndifAtEnd hbranch hbranch' => by
    obtain ⟨⟨first, _, _⟩, hfirst, rfl, rfl⟩ := hbranch.yields stop
    obtain ⟨⟨second, _, _⟩, hsecond, rfl, rfl⟩ := hbranch'.yields stop
    rw [takeOffer, hfirst]
    simp only
    rw [hsecond]
  | _, _, _, _, .badContinuation hbranch hend => by
    obtain ⟨⟨first, _, _⟩, hfirst, rfl, rfl⟩ := hbranch.yields stop
    rw [takeOffer, hfirst]
    simp only
    split
    · rename_i heq
      cases heq
      exact absurd (.inl rfl) hend
    · rename_i heq
      cases heq
      exact absurd (.inr (.inl rfl)) hend
    · rename_i heq
      cases heq
      exact absurd (.inr (.inr rfl)) hend
    · rename_i heq
      cases heq
      rfl
    · rename_i heq
      cases heq
  | _, _, _, _, .unclosed hbranch => by
    obtain ⟨⟨first, _, _⟩, hfirst, rfl, rfl⟩ := hbranch.yields stop
    rw [takeOffer, hfirst]

/-- A branch that fails by a rule is not read. -/
theorem BranchFails.takeBranch_eq : {ts : List Token} → {e : Error} → BranchFails stop ts e →
    takeBranch stop ts = .error e
  | _, _, .selection hsel => by
    rw [takeBranch, hsel.takeOffer_eq]
    rfl
  | ⟨kind, p⟩ :: _, _, .badBody hstring hword => by
    unfold takeBranch
    cases kind with
    | string text => exact absurd rfl (hstring text)
    | keyword word => exact absurd rfl (hword word)
    | _ => rfl
  | _, _, .atEnd => by
    rw [takeBranch]

end

theorem takeOffer_eq_error_iff {word : Keyword} {start : Position} {ts : List Token} {e : Error} :
    takeOffer stop word start ts = .error e ↔ SelectionFails stop word start ts e :=
  ⟨(fails_of_takeOffer_takeBranch stop).1 word start ts e, SelectionFails.takeOffer_eq⟩

/-! ### Clauses -/

/-- A token that may be an argument of a call. -/
def IsArgument (t : Token) : Prop :=
  ∃ value, t.kind = .symbol value ∨ t.kind = .string value

/-- A string on `line`. -/
def StringOn (line : Nat) (t : Token) : Prop :=
  (∃ text, t.kind = .string text) ∧ t.line = line

/-- Why no clause can be read. -/
inductive ClauseFails (stop : Position) : List Token → Error → Prop
  | unexpectedString {text : String} {p : Position} {ts : List Token} :
      ClauseFails stop (⟨.string text, p⟩ :: ts) (.syntactic (.unexpected (.string text)) p)
  | unexpectedCondition {expr : String} {p : Position} {ts : List Token} :
      ClauseFails stop (⟨.condition expr, p⟩ :: ts) (.syntactic (.unexpected (.condition expr)) p)
  | noSpeech {actor : String} {p : Position} {ts : List Token} : Stops (StringOn p.line) ts →
      ClauseFails stop (⟨.actor actor, p⟩ :: ts) (.syntactic (.missingSpeech actor) p)
  | badArgument {name : String} {p : Position} {t : Token} {ts rest : List Token}
      {args : List String} : Arguments p.line ts args (t :: rest) → t.line = p.line →
      ¬ IsArgument t →
      ClauseFails stop (⟨.symbol name, p⟩ :: ts) (.syntactic (.badArgument t.kind) t.position)
  | badChoice {p : Position} {t : Token} {ts : List Token} : (∀ text, t.kind ≠ .string text) →
      t.kind ≠ .keyword .if_ →
      ClauseFails stop (⟨.marker, p⟩ :: t :: ts)
        (.syntactic (.badChoice (some t.kind)) t.position)
  | noChoice {p : Position} : ClauseFails stop [⟨.marker, p⟩] (.syntactic (.badChoice none) p)
  | selection {p q : Position} {ts : List Token} {e : Error} : SelectionFails stop .if_ q ts e →
      ClauseFails stop (⟨.marker, p⟩ :: ⟨.keyword .if_, q⟩ :: ts) e

/-- Reading arguments fails at the first token of the line that is none. -/
theorem takeArguments_eq_error_iff {line : Nat} {ts : List Token} {e : Error} :
    takeArguments line ts = .error e ↔ ∃ args t rest, Arguments line ts args (t :: rest) ∧
      t.line = line ∧ ¬ IsArgument t ∧ e = .syntactic (.badArgument t.kind) t.position := by
  constructor
  · intro h
    fun_induction takeArguments line ts with
    | case1 => cases h
    | case2 t ts hline value hkind ih =>
      obtain ⟨args, t', rest, hargs, hrest⟩ := ih (exceptMap_eq_error_iff.mp h)
      obtain ⟨kind, p⟩ := t
      obtain rfl : kind = _ := hkind
      exact ⟨value :: args, t', rest, .symbol hline hargs, hrest⟩
    | case3 t ts hline value hkind ih =>
      obtain ⟨args, t', rest, hargs, hrest⟩ := ih (exceptMap_eq_error_iff.mp h)
      obtain ⟨kind, p⟩ := t
      obtain rfl : kind = _ := hkind
      exact ⟨value :: args, t', rest, .string hline hargs, hrest⟩
    | case4 t ts hline hsymbol hstring =>
      cases h
      refine ⟨[], t, ts, .nil _, hline, ?_, rfl⟩
      rintro ⟨value, hkind | hkind⟩
      · exact hsymbol value hkind
      · exact hstring value hkind
    | case5 => cases h
  · rintro ⟨args, t, rest, hargs, hline, hnone, rfl⟩
    generalize hrest : t :: rest = ts' at hargs
    induction hargs with
    | nil =>
      obtain ⟨kind, p⟩ := t
      subst hrest
      rw [takeArguments, if_pos hline]
      cases kind with
      | symbol value => exact absurd ⟨value, .inl rfl⟩ hnone
      | string value => exact absurd ⟨value, .inr rfl⟩ hnone
      | _ => rfl
    | @symbol value p ts _ _ hline' _ ih =>
      rw [takeArguments, if_pos (show Token.line ⟨.symbol value, p⟩ = line from hline')]
      exact exceptMap_eq_error_iff.mpr (ih hrest)
    | @string value p ts _ _ hline' _ ih =>
      rw [takeArguments, if_pos (show Token.line ⟨.string value, p⟩ = line from hline')]
      exact exceptMap_eq_error_iff.mpr (ih hrest)

theorem takeSpeech_eq_none_iff {line : Nat} {ts : List Token} :
    (takeSpeech line ts).value = none ↔ Stops (StringOn line) ts := by
  unfold takeSpeech
  split
  · rename_i text p ts
    rw [stops_cons]
    by_cases hline : p.line = line
    · rw [if_pos hline]
      exact ⟨fun h => absurd h (Option.some_ne_none _), fun h => absurd ⟨⟨text, rfl⟩, hline⟩ h⟩
    · rw [if_neg hline]
      exact ⟨fun _ h => hline h.2, fun _ => rfl⟩
  · rename_i ts hts
    refine ⟨fun _ => ?_, fun _ => rfl⟩
    rintro ⟨kind, p⟩ ht ⟨⟨text, rfl⟩, -⟩
    obtain ⟨ts', rfl⟩ := List.head?_eq_some_iff.mp ht
    exact hts _ _ _ rfl

theorem takeChoice_eq_error_iff {start : Position} {ts : List Token} {e : Error} :
    takeChoice stop start ts = .error e ↔ ClauseFails stop (⟨.marker, start⟩ :: ts) e := by
  constructor
  · intro h
    unfold takeChoice at h
    split at h
    · cases h
    · exact .selection (takeOffer_eq_error_iff.mp (exceptMap_eq_error_iff.mp h))
    · rename_i t ts hstring hif
      cases h
      exact .badChoice (fun text => kind_ne_of_forall (hstring text)) (kind_ne_of_forall hif)
    · cases h
      exact .noChoice
  · intro h
    cases h with
    | @badChoice _ t ts hstring hif =>
      obtain ⟨kind, p⟩ := t
      unfold takeChoice
      cases kind with
      | string text => exact absurd rfl (hstring text)
      | keyword word =>
        cases word with
        | if_ => exact absurd rfl hif
        | _ => rfl
      | _ => rfl
    | noChoice => rfl
    | selection hsel =>
      rw [takeChoice, hsel.takeOffer_eq]
      rfl

/-- **Reading a clause fails exactly by one of the rules.** -/
theorem takeClause_eq_error_iff {t : Token} {ts : List Token} {e : Error} :
    takeClause stop t ts = .error e ↔ ClauseFails stop (t :: ts) e := by
  obtain ⟨kind, p⟩ := t
  cases kind with
  | string text =>
    constructor
    · rintro ⟨⟩
      exact .unexpectedString
    · rintro ⟨⟩
      rfl
  | condition expr =>
    constructor
    · rintro ⟨⟩
      exact .unexpectedCondition
    · rintro ⟨⟩
      rfl
  | marker => exact exceptMap_eq_error_iff.trans takeChoice_eq_error_iff
  | actor name =>
    rw [takeClause]
    simp only
    split
    · rename_i text htext
      constructor
      · rintro ⟨⟩
      · rintro ⟨⟩
        rename_i hstop
        have hnone : (takeSpeech p.line ts).value = none := takeSpeech_eq_none_iff.mpr hstop
        exact absurd (htext.symm.trans hnone) (Option.some_ne_none text)
    · rename_i hnone
      have hstop : Stops (StringOn p.line) ts := takeSpeech_eq_none_iff.mp hnone
      constructor
      · rintro ⟨⟩
        exact .noSpeech hstop
      · rintro ⟨⟩
        rfl
  | symbol name =>
    refine exceptMap_eq_error_iff.trans (takeArguments_eq_error_iff.trans ?_)
    constructor
    · rintro ⟨args, t, rest, hargs, hline, hnone, rfl⟩
      exact .badArgument hargs hline hnone
    · intro h
      cases h with
      | badArgument hargs hline hnone => exact ⟨_, _, _, hargs, hline, hnone, rfl⟩
  | keyword word => cases word <;> exact ⟨by rintro ⟨⟩, by rintro ⟨⟩⟩
  | _ => exact ⟨by rintro ⟨⟩, by rintro ⟨⟩⟩

/-! ### Steps -/

/-- Why a clause at `p` does not fit a state that is collecting. -/
inductive StepFails (p : Position) : State → Clause → Error → Prop
  | header {earlier : List Segment} {current : Segment} {s : Scope} {below : List Scope}
      {name : String} :
      StepFails p ⟨earlier, current, s :: below⟩ (.header name)
        (.syntactic .unclosedConditional s.openedAt)
  | noCondition {st : State} :
      StepFails p st (.opening []) (.syntactic (.missingCondition .if_) p)
  | elifWithoutIf {earlier : List Segment} {current : Segment} {exprs : List String} :
      StepFails p ⟨earlier, current, []⟩ (.chaining exprs) (.syntactic .elifWithoutIf p)
  | elifAfterElse {earlier : List Segment} {current : Segment} {s : Scope} {below : List Scope}
      {exprs : List String} : s.phase = .alternate →
      StepFails p ⟨earlier, current, s :: below⟩ (.chaining exprs) (.syntactic .elifAfterElse p)
  | noElifCondition {earlier : List Segment} {current : Segment} {s : Scope}
      {below : List Scope} : s.phase = .consequent →
      StepFails p ⟨earlier, current, s :: below⟩ (.chaining [])
        (.syntactic (.missingCondition .elif) p)
  | elseWithoutIf {earlier : List Segment} {current : Segment} :
      StepFails p ⟨earlier, current, []⟩ .otherwise (.syntactic .elseWithoutIf p)
  | duplicateElse {earlier : List Segment} {current : Segment} {s : Scope} {below : List Scope} :
      s.phase = .alternate →
      StepFails p ⟨earlier, current, s :: below⟩ .otherwise (.syntactic .duplicateElse p)
  | endifWithoutIf {earlier : List Segment} {current : Segment} :
      StepFails p ⟨earlier, current, []⟩ .closing (.syntactic .endifWithoutIf p)

theorem openScope_eq_error_iff {st : State} {word : Keyword} {p : Position} {exprs : List String}
    {below : List Scope} {event : Nat → Event} {e : Error} :
    st.openScope word p exprs below event = .error e ↔
      exprs = [] ∧ e = .syntactic (.missingCondition word) p := by
  cases exprs with
  | nil => simp [State.openScope, eq_comm]
  | cons expr exprs => simp [State.openScope]

theorem StepFails.step_eq {st : State} {p : Position} {clause : Clause} {e : Error}
    (h : StepFails p st clause e) : st.step p clause = .error e := by
  cases h with
  | header => rfl
  | noCondition => exact openScope_eq_error_iff.mpr ⟨rfl, rfl⟩
  | elifWithoutIf => rfl
  | elifAfterElse hphase => simp only [State.step, hphase]
  | noElifCondition hphase =>
    simp only [State.step, hphase]
    exact openScope_eq_error_iff.mpr ⟨rfl, rfl⟩
  | elseWithoutIf => rfl
  | duplicateElse hphase => simp only [State.step, hphase]
  | endifWithoutIf => rfl

/-- **The steps that fail**, as long as the innermost scope is not closed. -/
theorem State.Collecting.stepFails {st : State} (hst : st.Collecting) {p : Position}
    {clause : Clause} {e : Error} (h : st.step p clause = .error e) : StepFails p st clause e := by
  obtain ⟨earlier, current, scopes⟩ := st
  cases clause with
  | header name =>
    cases scopes with
    | nil => cases h
    | cons s below =>
      cases h
      exact .header
  | opening exprs =>
    obtain ⟨rfl, rfl⟩ := openScope_eq_error_iff.mp h
    exact .noCondition
  | chaining exprs =>
    cases scopes with
    | nil =>
      cases h
      exact .elifWithoutIf
    | cons s below =>
      cases hphase : s.phase with
      | consequent =>
        simp only [State.step, hphase] at h
        obtain ⟨rfl, rfl⟩ := openScope_eq_error_iff.mp h
        exact .noElifCondition hphase
      | alternate =>
        simp only [State.step, hphase] at h
        cases h
        exact .elifAfterElse hphase
      | closed => exact absurd hphase (hst s rfl)
  | otherwise =>
    cases scopes with
    | nil =>
      cases h
      exact .elseWithoutIf
    | cons s below =>
      cases hphase : s.phase with
      | consequent => simp [State.step, hphase] at h
      | alternate =>
        simp only [State.step, hphase] at h
        cases h
        exact .duplicateElse hphase
      | closed => exact absurd hphase (hst s rfl)
  | closing =>
    cases scopes with
    | nil =>
      cases h
      exact .endifWithoutIf
    | cons s below => simp [State.step, hst s rfl] at h
  | statement stmt =>
    rw [State.step, hst.add] at h
    cases h

/-! ### Runs -/

/-- A configuration from which the parser cannot go on. -/
inductive Stuck (stop : Position) : State × List Token → Error → Prop
  | clause {st : State} {t : Token} {ts : List Token} {e : Error} :
      ClauseFails stop (t :: ts) e → Stuck stop (st, t :: ts) e
  | step {st : State} {t : Token} {ts rest : List Token} {clause : Clause} {e : Error} :
      ClauseAt (t :: ts) clause rest → StepFails t.position st clause e → Stuck stop (st, t :: ts) e
  | unclosed {earlier : List Segment} {current : Segment} {s : Scope} {below : List Scope} :
      Stuck stop (⟨earlier, current, s :: below⟩, [])
        (.syntactic .unclosedConditional s.openedAt)

/-- What a stuck configuration ends with. -/
theorem Stuck.run_bind_finish {c : State × List Token} {e : Error} (h : Stuck stop c e) :
    (c.1.run stop c.2).result.bind State.finish = .error e := by
  cases h with
  | clause hfails =>
    rw [State.run, takeClause_eq_error_iff.mpr hfails]
    rfl
  | step hclause hfails =>
    have hyields : Yields (takeClause stop _ _) _ _ := takeClause_yields_iff.mpr hclause
    obtain ⟨r, hr, rfl, rfl⟩ := hyields
    rw [State.run, hr]
    simp only [hfails.step_eq]
    rfl
  | unclosed =>
    rw [State.run]
    rfl

/-- **A run that does not come to an end of a script runs into a stuck configuration.** -/
theorem State.Nested.run_bind_finish_eq_error_iff {st : State} (hst : st.Nested)
    {ts : List Token} {e : Error} :
    (st.run stop ts).result.bind State.finish = .error e ↔
      ∃ c, Reaches stop (st, ts) c ∧ Stuck stop c e := by
  constructor
  · intro h
    cases hrun : (st.run stop ts).result with
    | error e' =>
      rw [hrun] at h
      cases h
      obtain ⟨st', t, ts', hreach, hfail⟩ := exists_failure_of_run hrun
      have hst' : st'.Collecting := (hst.reaches hreach).collecting
      refine ⟨_, hreach, ?_⟩
      obtain hclause | ⟨clause, rest, hyields, hstep⟩ := hfail
      · exact .clause (takeClause_eq_error_iff.mp hclause)
      · exact .step (takeClause_yields_iff.mp hyields) (hst'.stepFails hstep)
    | ok fin =>
      rw [hrun] at h
      refine ⟨_, reaches_of_run hrun, ?_⟩
      obtain ⟨earlier, current, scopes⟩ := fin
      cases scopes with
      | nil => cases h
      | cons s below =>
        cases h
        exact .unclosed
  · rintro ⟨c, hreach, hstuck⟩
    rw [← hstuck.run_bind_finish, run_result_of_reaches hreach]

/-- An error of the parser is the error of the stuck configuration that it runs into. -/
theorem parse_eq_error_iff {ts : List Token} {e : Error} :
    parse ts = .error e ↔
      ∃ c, Reaches (lastPosition ts) (.initial, ts) c ∧ Stuck (lastPosition ts) c e := by
  rw [parse_eq]
  exact State.nested_initial.run_bind_finish_eq_error_iff

end Dialogue
