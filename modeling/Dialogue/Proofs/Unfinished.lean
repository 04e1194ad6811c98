import Dialogue.Proofs.Failures
import Dialogue.Proofs.Parsing

/-!
# Unfinished scripts

The grammar of what can stand in front of a place inside a script.  `Grammar.Unfinished` lists the
conditionals that are open at that place, each by the latest of its keywords `if` and `elif`.  What
has been closed does not show up in the list: a conditional with its `endif` is a statement of a
block, and so is a choice with all the keywords inside it.

The parser knows more scopes than there are open conditionals, since every `elif` has a scope of its
own and closes the one below it.  `openConditionals` forgets the closed ones.  With that, the states
that the parser reaches are the unfinished scripts: `unfinished_of_reaches` follows a run clause by
clause, and an `endif` is the only clause that needs an argument, for it turns everything behind the
`if` into a statement (`Grammar.Unfinished.close`).  `Grammar.Unfinished.exists_reaches` is the way
back.
-/

namespace Dialogue

open Grammar Relation

variable {stop : Position}

/-! ### The grammar -/

namespace Grammar

/-- A conditional that is open: the place of its latest `if` or `elif`, and whether an `else` has
followed. -/
structure OpenConditional where
  latest : Position
  inElse : Bool
deriving DecidableEq, Repr

/-- The start of a script, the conditionals that are open behind it, the innermost first, and the
tokens that are left. -/
inductive Unfinished (ts : List Token) : List OpenConditional → List Token → Prop
  | lead {stmts : List Statement} {rest : List Token} : Block ts stmts rest →
      Unfinished ts [] rest
  | header {name : String} {p : Position} {ts₁ rest : List Token} {stmts : List Statement} :
      Unfinished ts [] (⟨.header name, p⟩ :: ts₁) → Block ts₁ stmts rest → Unfinished ts [] rest
  | if_ {opens : List OpenConditional} {p : Position} {ts₁ ts₂ rest : List Token}
      {exprs : List String} {stmts : List Statement} :
      Unfinished ts opens (⟨.keyword .if_, p⟩ :: ts₁) → Conditions p.line ts₁ exprs ts₂ →
      exprs ≠ [] → Block ts₂ stmts rest → Unfinished ts (⟨p, false⟩ :: opens) rest
  | elif {opens : List OpenConditional} {p q : Position} {ts₁ ts₂ rest : List Token}
      {exprs : List String} {stmts : List Statement} :
      Unfinished ts (⟨q, false⟩ :: opens) (⟨.keyword .elif, p⟩ :: ts₁) →
      Conditions p.line ts₁ exprs ts₂ → exprs ≠ [] → Block ts₂ stmts rest →
      Unfinished ts (⟨p, false⟩ :: opens) rest
  | else_ {opens : List OpenConditional} {p q : Position} {ts₁ rest : List Token}
      {stmts : List Statement} :
      Unfinished ts (⟨q, false⟩ :: opens) (⟨.keyword .else_, p⟩ :: ts₁) → Block ts₁ stmts rest →
      Unfinished ts (⟨q, true⟩ :: opens) rest

/-! ### Going on -/

theorem Block.concat {ts mid rest : List Token} {stmts : List Statement} {stmt : Statement}
    (h : Block ts stmts mid) (hstmt : Stmt mid stmt rest) : Block ts (stmts ++ [stmt]) rest := by
  induction stmts generalizing ts with
  | nil =>
    cases h
    exact .cons hstmt (.nil rest)
  | cons first stmts ih =>
    cases h with
    | cons hfirst hstmts => exact .cons hfirst (ih hstmts)

namespace Unfinished

variable {ts : List Token} {opens : List OpenConditional}

/-- A statement closes nothing and opens nothing. -/
theorem stmt {mid rest : List Token} {stmt : Statement} (h : Unfinished ts opens mid)
    (hstmt : Stmt mid stmt rest) : Unfinished ts opens rest := by
  cases h with
  | lead hblock => exact .lead (hblock.concat hstmt)
  | header h hblock => exact .header h (hblock.concat hstmt)
  | if_ h hconds hne hblock => exact .if_ h hconds hne (hblock.concat hstmt)
  | elif h hconds hne hblock => exact .elif h hconds hne (hblock.concat hstmt)
  | else_ h hblock => exact .else_ h (hblock.concat hstmt)

/-- What completes the innermost conditional: the rest of it from its first block on, or an `endif`
if that stands behind its `else`. -/
def Completes : Bool → List Token → List Token → Prop
  | false, mid, rest => ∃ second, ConditionalTail mid second rest
  | true, mid, rest => ∃ p, mid = ⟨.keyword .endif, p⟩ :: rest

/-- **A conditional that is completed is a statement of what encloses it.** -/
theorem complete {latest : Position} {inElse : Bool} {mid rest : List Token}
    (h : Unfinished ts (⟨latest, inElse⟩ :: opens) mid) (hend : Completes inElse mid rest) :
    Unfinished ts opens rest := by
  generalize hopens : OpenConditional.mk latest inElse :: opens = opens' at h
  induction h generalizing latest inElse rest with
  | lead | header => cases hopens
  | if_ h hconds hne hblock _ =>
    cases hopens
    obtain ⟨second, htail⟩ := hend
    exact h.stmt (.conditional (.intro hconds hne hblock htail))
  | @elif _ p _ ts₁ _ _ _ _ _ hconds hne hblock ih =>
    -- the keyword and all behind it complete the conditional in front of the keyword
    cases hopens
    obtain ⟨second, htail⟩ := hend
    have hwhole : Completes false (⟨.keyword .elif, p⟩ :: ts₁) rest :=
      ⟨_, .elif (.intro hconds hne hblock htail)⟩
    exact ih hwhole rfl
  | @else_ _ p _ ts₁ _ _ _ hblock ih =>
    cases hopens
    obtain ⟨q, rfl⟩ := hend
    have hwhole : Completes false (⟨.keyword .else_, p⟩ :: ts₁) rest := ⟨_, .else_ hblock⟩
    exact ih hwhole rfl

/-- An `endif` closes the innermost conditional, with all its keywords. -/
theorem close {latest : Position} {inElse : Bool} {p : Position} {rest : List Token}
    (h : Unfinished ts (⟨latest, inElse⟩ :: opens) (⟨.keyword .endif, p⟩ :: rest)) :
    Unfinished ts opens rest := by
  apply h.complete
  cases inElse with
  | false => exact ⟨[], .endif⟩
  | true => exact ⟨p, rfl⟩

end Unfinished

end Grammar

/-! ### Open conditionals on the stack -/

/-- The conditional that a scope collects, unless it is closed. -/
def Scope.open? (s : Scope) : Option OpenConditional :=
  match s.phase with
  | .consequent => some ⟨s.openedAt, false⟩
  | .alternate => some ⟨s.openedAt, true⟩
  | .closed => none

/-- The conditionals that are open on a stack: a closed scope belongs to the one above it. -/
def openConditionals (scopes : List Scope) : List OpenConditional :=
  scopes.filterMap Scope.open?

theorem Scope.open?_of_closed {s : Scope} (h : s.phase = .closed) : s.open? = none := by
  rw [Scope.open?, h]

theorem Scope.open?_extend (s : Scope) (stmts : List Statement) :
    (s.extend stmts).open? = s.open? := by
  obtain ⟨word, start, phase, conditions, consequent, alternate⟩ := s
  cases phase <;> rfl

/-- Collecting statements opens nothing. -/
theorem openConditionals_extend (st : State) (stmts : List Statement) :
    openConditionals (st.extend stmts).scopes = openConditionals st.scopes := by
  obtain ⟨earlier, current, scopes⟩ := st
  cases scopes with
  | nil => rfl
  | cons s below =>
    show List.filterMap _ (s.extend stmts :: below) = List.filterMap _ (s :: below)
    rw [List.filterMap_cons, List.filterMap_cons, Scope.open?_extend]

/-- A scope that is not closed is an open conditional. -/
theorem exists_openConditionals_cons {s : Scope} (h : s.phase ≠ .closed) (below : List Scope) :
    ∃ inElse : Bool, s.phase = (if inElse then .alternate else .consequent) ∧
      openConditionals (s :: below) = ⟨s.openedAt, inElse⟩ :: openConditionals below := by
  obtain ⟨word, start, phase, conditions, consequent, alternate⟩ := s
  cases phase with
  | consequent => exact ⟨false, rfl, rfl⟩
  | alternate => exact ⟨true, rfl, rfl⟩
  | closed => exact absurd rfl h

theorem openConditionals_cons_of_consequent {s : Scope} (h : s.phase = .consequent)
    (below : List Scope) :
    openConditionals (s :: below) = ⟨s.openedAt, false⟩ :: openConditionals below := by
  obtain ⟨word, start, phase, conditions, consequent, alternate⟩ := s
  subst h
  rfl

theorem openConditionals_append_of_closed {chain outer : List Scope}
    (h : ∀ s ∈ chain, s.phase = .closed) :
    openConditionals (chain ++ outer) = openConditionals outer := by
  have hchain : chain.filterMap Scope.open? = [] :=
    List.filterMap_eq_nil_iff.mpr fun s hs => Scope.open?_of_closed (h s hs)
  rw [openConditionals, List.filterMap_append, hchain, List.nil_append]
  rfl

/-- The innermost scope of a collecting state is its innermost open conditional. -/
theorem State.Collecting.exists_scope {st : State} (hst : st.Collecting) {o : OpenConditional}
    {opens : List OpenConditional} (h : openConditionals st.scopes = o :: opens) :
    ∃ s below, st.scopes = s :: below ∧ s.openedAt = o.latest ∧
      s.phase = (if o.inElse then .alternate else .consequent) ∧ openConditionals below = opens := by
  obtain ⟨earlier, current, scopes⟩ := st
  cases scopes with
  | nil => cases h
  | cons s below =>
    obtain ⟨inElse, hphase, hcons⟩ := exists_openConditionals_cons (hst s rfl) below
    obtain ⟨rfl, rfl⟩ := List.cons.inj (hcons.symm.trans h)
    exact ⟨s, below, rfl, rfl, hphase, rfl⟩

theorem State.Collecting.scopes_eq_nil {st : State} (hst : st.Collecting)
    (h : openConditionals st.scopes = []) : st.scopes = [] := by
  obtain ⟨earlier, current, scopes⟩ := st
  cases scopes with
  | nil => rfl
  | cons s below =>
    obtain ⟨inElse, -, hcons⟩ := exists_openConditionals_cons (hst s rfl) below
    cases hcons.symm.trans h

/-! ### From runs to the grammar -/

theorem Steps.unfinished {ts mid rest : List Token} {st st' : State} {p : Position}
    {clause : Clause} {events : List Event} (hnested : st.Nested)
    (h : Unfinished ts (openConditionals st.scopes) mid) (hclause : ClauseAt mid clause rest)
    (hp : ∀ t ∈ mid.head?, t.position = p) (hstep : Steps p st clause st' events) :
    Unfinished ts (openConditionals st'.scopes) rest := by
  cases hclause with
  | header =>
    cases hstep
    exact .header h (.nil rest)
  | opening hconds _ =>
    obtain rfl := hp _ rfl
    cases hstep with
    | opening hne => exact .if_ h hconds hne (.nil rest)
  | chaining hconds _ =>
    obtain rfl := hp _ rfl
    cases hstep with
    | chaining hphase hne =>
      rw [openConditionals_cons_of_consequent hphase] at h
      exact .elif h hconds hne (.nil rest)
  | otherwise =>
    cases hstep with
    | otherwise hphase =>
      rw [openConditionals_cons_of_consequent hphase] at h
      exact .else_ h (.nil rest)
  | closing =>
    obtain ⟨top, chain, outer, hscopes, hclosed, -, -, rfl⟩ := hnested.closing hstep
    have htop : top.phase ≠ .closed := hnested.collecting top (by rw [hscopes]; rfl)
    obtain ⟨inElse, -, hcons⟩ := exists_openConditionals_cons htop (chain ++ outer)
    rw [hscopes, hcons, openConditionals_append_of_closed hclosed] at h
    rw [openConditionals_extend]
    exact h.close
  | statement hsimple =>
    cases hstep
    rw [openConditionals_extend]
    exact h.stmt (.simple hsimple)

/-- **Wherever the parser gets, it has read an unfinished script**, and its stack holds the
conditionals that are open there. -/
theorem unfinished_of_reaches {ts : List Token} {c : State × List Token}
    (h : Reaches stop (.initial, ts) c) : Unfinished ts (openConditionals c.1.scopes) c.2 := by
  induction h with
  | refl => exact .lead (.nil ts)
  | tail hreach hadv ih =>
    have hnested := State.nested_initial.reaches hreach
    obtain ⟨hyields, hstep⟩ := hadv
    refine (step_eq_ok_iff.mp hstep).unfinished hnested ih (takeClause_yields_iff.mp hyields) ?_
    rintro _ ⟨⟩
    rfl

/-! ### From the grammar to runs -/

/-- **The parser gets behind every unfinished script**, unless a condition follows that it would
take for a part of the last keyword. -/
theorem Grammar.Unfinished.exists_reaches (stop : Position) {ts rest : List Token}
    {opens : List OpenConditional} (h : Unfinished ts opens rest)
    (hrest : ∀ line, Stops (ConditionOn line) rest) :
    ∃ st : State, Reaches stop (.initial, ts) (st, rest) ∧ st.Collecting ∧
      openConditionals st.scopes = opens := by
  -- behind a clause the block is read, and it leaves the open conditionals alone
  have hblock {st : State} {mid rest : List Token} {stmts : List Statement}
      (hreach : Reaches stop (.initial, ts) (st, mid)) (hst : st.Collecting)
      (h : Block mid stmts rest) :
      ∃ st' : State, Reaches stop (.initial, ts) (st', rest) ∧ st'.Collecting ∧
        openConditionals st'.scopes = openConditionals st.scopes :=
    ⟨st.extend stmts, hreach.trans (h.reaches stop st hst), hst.extend stmts,
      openConditionals_extend st stmts⟩
  -- a keyword or a header is no condition
  have hword {kind : Token.Kind} {p : Position} {ts : List Token}
      (hkind : ∀ expr, kind ≠ .condition expr) (line : Nat) :
      Stops (ConditionOn line) (⟨kind, p⟩ :: ts) :=
    stops_cons.mpr fun ht => hkind _ ht.1.choose_spec
  induction h with
  | lead h => exact hblock .refl (State.collecting_of_scopes_eq_nil rfl) h
  | header _ h ih =>
    obtain ⟨⟨earlier, current, scopes⟩, hreach, hst, hopens⟩ := ih (hword (by simp))
    obtain rfl : scopes = [] := hst.scopes_eq_nil hopens
    have hnext := hreach.trans (reaches_clause .header .header)
    exact hblock hnext (State.collecting_of_scopes_eq_nil rfl) h
  | @if_ opens p _ _ _ exprs _ _ hconds hne h ih =>
    obtain ⟨⟨earlier, current, scopes⟩, hreach, hst, rfl⟩ := ih (hword (by simp))
    have hclause := ClauseAt.opening hconds (h.stops_condition (hrest p.line))
    have hnext := hreach.trans (reaches_clause hclause (.opening hne))
    exact hblock hnext (by rintro _ ⟨⟩; rintro ⟨⟩) h
  | @elif _ p _ _ _ _ _ _ _ hconds hne h ih =>
    obtain ⟨⟨earlier, current, scopes⟩, hreach, hst, hopens⟩ := ih (hword (by simp))
    obtain ⟨s, below, rfl, -, hphase, rfl⟩ := hst.exists_scope hopens
    have hclause := ClauseAt.chaining hconds (h.stops_condition (hrest p.line))
    have hnext := hreach.trans (reaches_clause hclause (.chaining hphase hne))
    exact hblock hnext (by rintro _ ⟨⟩; rintro ⟨⟩) h
  | else_ _ h ih =>
    obtain ⟨⟨earlier, current, scopes⟩, hreach, hst, hopens⟩ := ih (hword (by simp))
    obtain ⟨s, below, rfl, rfl, hphase, rfl⟩ := hst.exists_scope hopens
    have hnext := hreach.trans (reaches_clause .otherwise (.otherwise hphase))
    exact hblock hnext (by rintro _ ⟨⟩; rintro ⟨⟩) h

end Dialogue
