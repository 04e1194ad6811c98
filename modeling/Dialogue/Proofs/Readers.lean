import Dialogue.Proofs.Grammar
import Dialogue.Script.Clause

/-!
# What the readers take

Each reader that takes tokens off the front of a list, against the phrase of the grammar it is made
for.  The readers are greedy: where a phrase may end at several places, they go to the last one.
So a reader agrees with every phrase that could not have gone on, and this is what `Stops` says of
the tokens behind it.
-/

namespace Dialogue

open Grammar

/-- The reader succeeds with the value `a` and leaves `rest`. -/
def Yields {α : Type} {ts : List Token} (x : Except Error (Taken α ts)) (a : α)
    (rest : List Token) : Prop :=
  ∃ r, x = .ok r ∧ r.value = a ∧ r.rest = rest

/-- A reader whose value is changed afterwards. -/
theorem yields_map_iff {α β : Type} {ts rest : List Token} {x : Except Error (Taken α ts)}
    {f : α → β} {b : β} :
    Yields (x.map (·.map f)) b rest ↔ ∃ a, f a = b ∧ Yields x a rest := by
  cases x with
  | error e =>
    constructor
    · rintro ⟨r, hr, -⟩
      cases hr
    · rintro ⟨a, -, r, hr, -⟩
      cases hr
  | ok r =>
    constructor
    · rintro ⟨_, ⟨⟩, rfl, rfl⟩
      exact ⟨r.value, rfl, r, rfl, rfl, rfl⟩
    · rintro ⟨_, rfl, _, ⟨⟩, rfl, rfl⟩
      exact ⟨r.map f, rfl, rfl, rfl⟩

/-- A reader that has taken the token `t` before. -/
theorem yields_map_behind_iff {α β : Type} {t : Token} {ts rest : List Token}
    {x : Except Error (Taken α ts)} {f : α → β} {b : β} :
    Yields (x.map fun r => (r.map f).behind t) b rest ↔ ∃ a, f a = b ∧ Yields x a rest := by
  rw [← yields_map_iff]
  cases x with
  | error e =>
    constructor
    · rintro ⟨r, hr, -⟩
      cases hr
    · rintro ⟨r, hr, -⟩
      cases hr
  | ok r =>
    constructor
    · rintro ⟨_, ⟨⟩, hvalue, hrest⟩
      exact ⟨_, rfl, hvalue, hrest⟩
    · rintro ⟨_, ⟨⟩, hvalue, hrest⟩
      exact ⟨_, rfl, hvalue, hrest⟩

/-! ### Readers bound to a line -/

theorem stops_nil (p : Token → Prop) : Stops p [] := by
  intro t ht
  cases ht

theorem stops_cons {p : Token → Prop} {t : Token} {ts : List Token} :
    Stops p (t :: ts) ↔ ¬ p t := by
  simp [Stops]

/-- No phrase has to be broken off in front of a token that stands on another line. -/
theorem Grammar.Stops.of_line_ne {p : Token → Prop} {line : Nat} (hp : ∀ t, p t → t.line = line)
    {t : Token} {ts : List Token} (h : t.line ≠ line) : Stops p (t :: ts) :=
  stops_cons.mpr fun ht => h (hp t ht)

theorem takeConditions_of_stops {line : Nat} {ts : List Token}
    (h : Stops (ConditionOn line) ts) : takeConditions line ts = .nothing [] ts := by
  unfold takeConditions
  split
  · rename_i expr p ts'
    have hline : p.line ≠ line := fun hline => stops_cons.mp h ⟨⟨expr, rfl⟩, hline⟩
    rw [if_neg hline]
  · rfl

/-- Reading conditions takes a phrase of conditions, and no condition is left behind it. -/
theorem takeConditions_spec (line : Nat) (ts : List Token) :
    Conditions line ts (takeConditions line ts).value (takeConditions line ts).rest ∧
      Stops (ConditionOn line) (takeConditions line ts).rest := by
  fun_induction takeConditions line ts with
  | case1 expr p ts hline ih => exact ⟨.cons hline ih.1, ih.2⟩
  | case2 expr p ts hline => exact ⟨.nil _, .of_line_ne (fun t ht => ht.2) hline⟩
  | case3 ts hts =>
    refine ⟨.nil _, ?_⟩
    rintro ⟨kind, p⟩ ht ⟨⟨expr, rfl⟩, -⟩
    obtain ⟨ts', rfl⟩ := List.head?_eq_some_iff.mp ht
    exact hts _ _ _ rfl

/-- The conditions of a phrase are the ones that are read, if no further one follows. -/
theorem takeConditions_eq {line : Nat} {ts rest : List Token} {exprs : List String}
    (h : Conditions line ts exprs rest) (hstop : Stops (ConditionOn line) rest) :
    (takeConditions line ts).value = exprs ∧ (takeConditions line ts).rest = rest := by
  induction h with
  | nil ts =>
    rw [takeConditions_of_stops hstop]
    exact ⟨rfl, rfl⟩
  | cons hline _ ih =>
    obtain ⟨hvalue, hrest⟩ := ih hstop
    rw [takeConditions, if_pos hline]
    exact ⟨congrArg _ hvalue, hrest⟩

theorem takeDivert_of_stops {line : Nat} {ts : List Token} (h : Stops (DivertOn line) ts) :
    takeDivert line ts = .nothing none ts := by
  unfold takeDivert
  split
  · rename_i target p ts'
    have hline : p.line ≠ line := fun hline => stops_cons.mp h ⟨⟨target, rfl⟩, hline⟩
    rw [if_neg hline]
  · rfl

/-- Reading a divert takes one if it is there. -/
theorem takeDivert_spec (line : Nat) (ts : List Token) :
    Jump line ts (takeDivert line ts).value (takeDivert line ts).rest ∧
      ((takeDivert line ts).value = none → Stops (DivertOn line) (takeDivert line ts).rest) := by
  unfold takeDivert
  split
  · rename_i target p ts'
    split
    · rename_i hline
      exact ⟨.some hline, nofun⟩
    · rename_i hline
      exact ⟨.none _, fun _ => .of_line_ne (fun t ht => ht.2) hline⟩
  · rename_i ts hts
    refine ⟨.none _, fun _ => ?_⟩
    rintro ⟨kind, p⟩ ht ⟨⟨target, rfl⟩, -⟩
    obtain ⟨ts', rfl⟩ := List.head?_eq_some_iff.mp ht
    exact hts _ _ _ rfl

/-- The divert of a phrase is the one that is read, if a missing one could not follow. -/
theorem takeDivert_eq {line : Nat} {ts rest : List Token} {divert : Option String}
    (h : Jump line ts divert rest) (hstop : divert = none → Stops (DivertOn line) rest) :
    (takeDivert line ts).value = divert ∧ (takeDivert line ts).rest = rest := by
  cases h with
  | none =>
    rw [takeDivert_of_stops (hstop rfl)]
    exact ⟨rfl, rfl⟩
  | some hline =>
    rw [takeDivert, if_pos hline]
    exact ⟨rfl, rfl⟩

theorem takeArguments_of_stops {line : Nat} {ts : List Token} (h : Stops (·.line = line) ts) :
    takeArguments line ts = .ok (.nothing [] ts) := by
  cases ts with
  | nil => rfl
  | cons t ts => rw [takeArguments, if_neg (stops_cons.mp h)]

/-- Reading arguments succeeds exactly on a phrase of arguments that fills its line. -/
theorem takeArguments_yields_iff {line : Nat} {ts rest : List Token} {args : List String} :
    Yields (takeArguments line ts) args rest ↔
      Arguments line ts args rest ∧ Stops (·.line = line) rest := by
  constructor
  · intro h
    fun_induction takeArguments line ts generalizing args with
    | case1 =>
      obtain ⟨r, ⟨⟩, rfl, rfl⟩ := h
      exact ⟨.nil _, stops_nil _⟩
    | case2 t ts hline value hkind ih =>
      obtain ⟨args, rfl, hargs⟩ := yields_map_behind_iff.mp h
      obtain ⟨kind, p⟩ := t
      obtain rfl : kind = _ := hkind
      exact ⟨.symbol hline (ih hargs).1, (ih hargs).2⟩
    | case3 t ts hline value hkind ih =>
      obtain ⟨args, rfl, hargs⟩ := yields_map_behind_iff.mp h
      obtain ⟨kind, p⟩ := t
      obtain rfl : kind = _ := hkind
      exact ⟨.string hline (ih hargs).1, (ih hargs).2⟩
    | case4 =>
      obtain ⟨r, hr, -⟩ := h
      cases hr
    | case5 t ts hline =>
      obtain ⟨r, ⟨⟩, rfl, rfl⟩ := h
      exact ⟨.nil _, stops_cons.mpr hline⟩
  · rintro ⟨h, hstop⟩
    induction h with
    | nil ts =>
      rw [takeArguments_of_stops hstop]
      exact ⟨_, rfl, rfl, rfl⟩
    | @symbol value p ts args rest hline _ ih =>
      rw [takeArguments, if_pos (show Token.line ⟨.symbol value, p⟩ = line from hline)]
      exact yields_map_behind_iff.mpr ⟨args, rfl, ih hstop⟩
    | @string value p ts args rest hline _ ih =>
      rw [takeArguments, if_pos (show Token.line ⟨.string value, p⟩ = line from hline)]
      exact yields_map_behind_iff.mpr ⟨args, rfl, ih hstop⟩

/-! ### Selections -/

/-- **What is read as a selection or as a branch is one.**  By the recursion of the two readers;
where one of them fails there is nothing to show. -/
theorem takeOffer_takeBranch_sound (stop : Position) :
    (∀ word start ts r, takeOffer stop word start ts = .ok r → Selection ts r.value r.rest) ∧
      ∀ ts r, takeBranch stop ts = .ok r → Body ts r.value r.rest := by
  apply takeOffer.mutual_induct_unfolding stop
    (fun _ _ ts x => ∀ r, x = .ok r → Selection ts r.value r.rest)
    (fun ts x => ∀ r, x = .ok r → Body ts r.value r.rest)
  case case3 =>
    -- `elif`: the second branch is a selection
    rintro word start expr p ts first hfirst q ts' hrest second hsecond ihfirst ihsecond _ ⟨⟩
    exact .intro (hrest ▸ ihfirst first hfirst) (.elif (ihsecond second hsecond))
  case case5 =>
    -- `else`: the second branch is a body, and an `endif` follows
    rintro word start expr p ts first hfirst q ts' hrest second hsecond q' ts'' hend ihfirst
      ihsecond _ ⟨⟩
    exact .intro (hrest ▸ ihfirst first hfirst) (.else_ (hend ▸ ihsecond second hsecond))
  case case8 =>
    -- `endif`: there is no second branch
    rintro word start expr p ts first hfirst q ts' hrest ihfirst _ ⟨⟩
    exact .intro (hrest ▸ ihfirst first hfirst) .endif
  case case12 =>
    rintro text p ts _ ⟨⟩
    exact .line (takeDivert_spec p.line ts).1
  case case13 =>
    intro p ts ih r hr
    cases hoffer : takeOffer stop .if_ p ts with
    | error e => rw [hoffer] at hr; cases hr
    | ok offer =>
      rw [hoffer] at hr
      cases hr
      exact .selection (ih offer hoffer)
  case case14 =>
    rintro word p ts hword _ ⟨⟩
    exact .nothing _
  all_goals
    intros
    contradiction

/-- A keyword that ends a branch. -/
def EndsBranch (t : Token) : Prop :=
  t.kind = .keyword .elif ∨ t.kind = .keyword .else_ ∨ t.kind = .keyword .endif

/-- The tokens go on with a keyword that ends a branch. -/
def AtBranchEnd (ts : List Token) : Prop :=
  ∃ t ∈ ts.head?, EndsBranch t

theorem Grammar.SelectionTail.atBranchEnd {ts rest : List Token} {second : Option Offer}
    (h : SelectionTail ts second rest) : AtBranchEnd ts := by
  cases h with
  | elif _ => exact ⟨_, rfl, .inl rfl⟩
  | else_ _ => exact ⟨_, rfl, .inr (.inl rfl)⟩
  | endif => exact ⟨_, rfl, .inr (.inr rfl)⟩

theorem AtBranchEnd.stops {p : Token → Prop} (hp : ∀ t, EndsBranch t → ¬ p t) {ts : List Token}
    (h : AtBranchEnd ts) : Stops p ts := by
  obtain ⟨t, ht, hend⟩ := h
  intro t' ht'
  obtain rfl : t = t' := Option.mem_unique ht ht'
  exact hp t hend

theorem AtBranchEnd.stops_divert {line : Nat} {ts : List Token} (h : AtBranchEnd ts) :
    Stops (DivertOn line) ts := by
  refine h.stops ?_
  rintro ⟨kind, p⟩ hend ⟨⟨target, rfl⟩, -⟩
  simp [EndsBranch] at hend

theorem takeBranch_of_atBranchEnd {stop : Position} {ts : List Token} (h : AtBranchEnd ts) :
    takeBranch stop ts = .ok (.nothing none ts) := by
  obtain ⟨⟨kind, p⟩, ht, hend⟩ := h
  obtain ⟨ts, rfl⟩ := List.head?_eq_some_iff.mp ht
  rcases hend with hkind | hkind | hkind
  all_goals
    obtain rfl : kind = _ := hkind
    rw [takeBranch]
    decide

mutual

/-- Every selection of the grammar is read. -/
theorem Grammar.Selection.yields {stop start : Position} {word : Keyword} :
    {ts rest : List Token} → {offer : Offer} → Selection ts offer rest →
      Yields (takeOffer stop word start ts) offer rest
  | _, _, _, .intro hbody (.elif hsel) => by
    obtain ⟨⟨first, _, _⟩, hfirst, rfl, rfl⟩ := hbody.yields (SelectionTail.elif hsel).atBranchEnd
    obtain ⟨second, hsecond, rfl, rfl⟩ := hsel.yields
    rw [takeOffer, hfirst]
    simp only
    rw [hsecond]
    exact ⟨_, rfl, rfl, rfl⟩
  | _, _, _, .intro hbody (.else_ helse) => by
    obtain ⟨⟨first, _, _⟩, hfirst, rfl, rfl⟩ := hbody.yields (SelectionTail.else_ helse).atBranchEnd
    obtain ⟨⟨second, _, _⟩, hsecond, rfl, rfl⟩ := helse.yields ⟨_, rfl, .inr (.inr rfl)⟩
    rw [takeOffer, hfirst]
    simp only
    rw [hsecond]
    exact ⟨_, rfl, rfl, rfl⟩
  | _, _, _, .intro hbody .endif => by
    obtain ⟨⟨first, _, _⟩, hfirst, rfl, rfl⟩ := hbody.yields SelectionTail.endif.atBranchEnd
    rw [takeOffer, hfirst]
    exact ⟨_, rfl, rfl, rfl⟩

/-- Every body of the grammar is read, if the branch ends behind it. -/
theorem Grammar.Body.yields {stop : Position} :
    {ts rest : List Token} → {body : Option Offer} → Body ts body rest → AtBranchEnd rest →
      Yields (takeBranch stop ts) body rest
  | _, _, _, .nothing ts, hend => by
    rw [takeBranch_of_atBranchEnd hend]
    exact ⟨_, rfl, rfl, rfl⟩
  | _, _, _, @Body.line text _ _ _ _ hjump, hend => by
    obtain ⟨hvalue, hrest⟩ := takeDivert_eq hjump fun _ => hend.stops_divert
    rw [takeBranch]
    exact ⟨_, rfl, congrArg (fun divert => some (Offer.line text divert)) hvalue, hrest⟩
  | _, _, _, .selection hsel, _ => by
    rw [takeBranch]
    exact yields_map_behind_iff.mpr ⟨_, rfl, hsel.yields⟩

end

theorem takeOffer_yields_iff {stop start : Position} {word : Keyword} {ts rest : List Token}
    {offer : Offer} :
    Yields (takeOffer stop word start ts) offer rest ↔ Selection ts offer rest := by
  constructor
  · rintro ⟨r, hr, rfl, rfl⟩
    exact (takeOffer_takeBranch_sound stop).1 word start ts r hr
  · exact Selection.yields

/-! ### Clauses -/

theorem takeSpeech_eq_some {line : Nat} {ts : List Token} {text : String}
    (h : (takeSpeech line ts).value = some text) :
    ∃ q : Position, q.line = line ∧ ts = ⟨.string text, q⟩ :: (takeSpeech line ts).rest := by
  unfold takeSpeech at h ⊢
  split at h
  · rename_i value q ts'
    split at h
    · rename_i hline
      cases h
      rw [if_pos hline]
      exact ⟨q, hline, rfl⟩
    · cases h
  · cases h

/-- A choice that is read is a choice of the grammar, and conversely. -/
theorem takeChoice_yields_iff {stop start : Position} {ts rest : List Token} {stmt : Statement} :
    Yields (takeChoice stop start ts) stmt rest ↔ Simple (⟨.marker, start⟩ :: ts) stmt rest := by
  constructor
  · intro h
    unfold takeChoice at h
    split at h
    · rename_i text q ts'
      obtain ⟨_, ⟨⟩, rfl, rfl⟩ := h
      have hconds := takeConditions_spec q.line ts'
      have hjump := takeDivert_spec q.line (takeConditions q.line ts').rest
      exact .choice hconds.1 hconds.2 hjump.1 hjump.2
    · obtain ⟨offer, rfl, hoffer⟩ := yields_map_behind_iff.mp h
      exact .offer (takeOffer_yields_iff.mp hoffer)
    · obtain ⟨r, hr, -⟩ := h
      cases hr
    · obtain ⟨r, hr, -⟩ := h
      cases hr
  · intro h
    cases h with
    | @choice text _ q ts ts' _ exprs divert hconds hstop hjump habsorbed =>
      obtain ⟨hexprs, hrest⟩ := takeConditions_eq hconds hstop
      obtain ⟨hdivert, hrest'⟩ := takeDivert_eq hjump habsorbed
      subst hrest
      rw [takeChoice]
      refine ⟨_, rfl, ?_, hrest'⟩
      show Statement.choice text _ (takeDivert q.line (takeConditions q.line ts).rest).value = _
      rw [hexprs, hdivert]
    | offer hsel =>
      rw [takeChoice]
      exact yields_map_behind_iff.mpr ⟨_, rfl, takeOffer_yields_iff.mpr hsel⟩

/-- The clause that `ts` starts with, and the tokens behind it. -/
inductive ClauseAt : List Token → Clause → List Token → Prop
  | header {name : String} {p : Position} {rest : List Token} :
      ClauseAt (⟨.header name, p⟩ :: rest) (.header name) rest
  | opening {p : Position} {ts rest : List Token} {exprs : List String} :
      Conditions p.line ts exprs rest → Stops (ConditionOn p.line) rest →
      ClauseAt (⟨.keyword .if_, p⟩ :: ts) (.opening exprs) rest
  | chaining {p : Position} {ts rest : List Token} {exprs : List String} :
      Conditions p.line ts exprs rest → Stops (ConditionOn p.line) rest →
      ClauseAt (⟨.keyword .elif, p⟩ :: ts) (.chaining exprs) rest
  | otherwise {p : Position} {rest : List Token} :
      ClauseAt (⟨.keyword .else_, p⟩ :: rest) .otherwise rest
  | closing {p : Position} {rest : List Token} :
      ClauseAt (⟨.keyword .endif, p⟩ :: rest) .closing rest
  | statement {ts rest : List Token} {stmt : Statement} : Simple ts stmt rest →
      ClauseAt ts (.statement stmt) rest

/-- A clause that is read is the one that stands there. -/
theorem takeClause_sound {stop : Position} {t : Token} {ts : List Token} {r : Taken Clause ts}
    (h : takeClause stop t ts = .ok r) : ClauseAt (t :: ts) r.value r.rest := by
  obtain ⟨kind, p⟩ := t
  cases kind with
  | string value => cases h
  | header name =>
    cases h
    exact .header
  | divert target =>
    cases h
    exact .statement .divert
  | marker =>
    obtain ⟨stmt, hstmt, hchoice⟩ := yields_map_iff.mp ⟨r, h, rfl, rfl⟩
    rw [← hstmt]
    exact .statement (takeChoice_yields_iff.mp hchoice)
  | condition expr => cases h
  | script code =>
    cases h
    exact .statement .script
  | actor name =>
    rw [takeClause] at h
    simp only at h
    split at h
    · rename_i text htext
      obtain ⟨q, hline, hts⟩ : ∃ q : Position, q.line = p.line ∧
          ts = ⟨.string text, q⟩ :: (takeSpeech p.line ts).rest := takeSpeech_eq_some htext
      cases h
      have hphrase : ClauseAt (⟨.actor name, p⟩ :: ⟨.string text, q⟩ :: (takeSpeech p.line ts).rest)
          (.statement (.speech name text)) (takeSpeech p.line ts).rest := .statement (.speech hline)
      rw [← hts] at hphrase
      exact hphrase
    · cases h
  | keyword word =>
    cases word with
    | if_ =>
      cases h
      obtain ⟨hconds, hstop⟩ := takeConditions_spec p.line ts
      exact .opening hconds hstop
    | elif =>
      cases h
      obtain ⟨hconds, hstop⟩ := takeConditions_spec p.line ts
      exact .chaining hconds hstop
    | else_ =>
      cases h
      exact .otherwise
    | endif =>
      cases h
      exact .closing
  | symbol name =>
    obtain ⟨args, hargs, hread⟩ := yields_map_iff.mp ⟨r, h, rfl, rfl⟩
    obtain ⟨hphrase, hstop⟩ := takeArguments_yields_iff.mp hread
    rw [← hargs]
    exact .statement (.call hphrase hstop)

/-- **Reading a clause takes exactly the clause that stands there.** -/
theorem takeClause_yields_iff {stop : Position} {t : Token} {ts rest : List Token}
    {clause : Clause} :
    Yields (takeClause stop t ts) clause rest ↔ ClauseAt (t :: ts) clause rest := by
  constructor
  · rintro ⟨r, hr, rfl, rfl⟩
    exact takeClause_sound hr
  · intro h
    cases h with
    | header => exact ⟨_, rfl, rfl, rfl⟩
    | @opening p ts _ exprs hconds hstop =>
      obtain ⟨hvalue, hrest⟩ := takeConditions_eq hconds hstop
      exact ⟨_, rfl, congrArg Clause.opening hvalue, hrest⟩
    | chaining hconds hstop =>
      obtain ⟨hvalue, hrest⟩ := takeConditions_eq hconds hstop
      exact ⟨_, rfl, congrArg Clause.chaining hvalue, hrest⟩
    | otherwise => exact ⟨_, rfl, rfl, rfl⟩
    | closing => exact ⟨_, rfl, rfl, rfl⟩
    | statement hsimple =>
      have hmarker {p : Position} {ts : List Token} {stmt : Statement}
          (h : Simple (⟨.marker, p⟩ :: ts) stmt rest) :
          Yields (takeClause stop ⟨.marker, p⟩ ts) (.statement stmt) rest :=
        yields_map_iff.mpr ⟨stmt, rfl, takeChoice_yields_iff.mpr h⟩
      cases hsimple with
      | @speech actor text p q _ hline =>
        refine ⟨⟨.statement (.speech actor text), rest, List.suffix_cons _ _⟩, ?_, rfl, rfl⟩
        rw [takeClause, takeSpeech, if_pos (show q.line = Token.line ⟨.actor actor, p⟩ from hline)]
        rfl
      | divert => exact ⟨_, rfl, rfl, rfl⟩
      | script => exact ⟨_, rfl, rfl, rfl⟩
      | call hargs hstop =>
        exact yields_map_iff.mpr ⟨_, rfl, takeArguments_yields_iff.mpr ⟨hargs, hstop⟩⟩
      | choice hconds hstop hjump habsorbed =>
        exact hmarker (.choice hconds hstop hjump habsorbed)
      | offer hsel => exact hmarker (.offer hsel)

end Dialogue
