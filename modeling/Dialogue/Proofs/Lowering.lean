import Dialogue.Proofs.Program
import Dialogue.Proofs.WellFormed
import Dialogue.Routine.Code

/-!
# Routines do what their segments mean

A routine is a tree of actions; `Routine.procedure` is the procedure it stands for.  Running that
procedure is running its segment (`Routine.run_procedure`): the two pass through the same history
and end with the same label.

Lowering never fails (`Action.exists_lowers`), since grouping leaves no choice outside of a menu.
`Action.Lowers` says statement by statement what it does, and the simulation goes along it: `Agrees`
compares what a block of statements does with what its commands do.
-/

namespace Dialogue

/-! ### Commands of actions -/

/-- All conditions hold.  There is at least one of them. -/
def Test.ofConditions : List String → Test
  | [] => .holds ""
  | [condition] => .holds condition
  | condition :: conditions => .both (.holds condition) (ofConditions conditions)

/-- Commands, or one that does nothing. -/
def Command.orPass (commands : List Command) : List Command :=
  if commands.isEmpty then [.pass] else commands

namespace Action

mutual

/-- The commands of an action. -/
def commands : Action → List Command
  | say actor line => [.say actor line]
  | leave target => [.give (.text target)]
  | call name args => [.call name args]
  | code _ => []
  | menu slot choices =>
    [.menu (variableName slot) choices,
     .branch (.answered (variableName slot)) [.give (.stored (variableName slot))] []]
  | branch conditions consequent alternate =>
    [.branch (.ofConditions conditions) (Command.orPass (listCommands consequent))
      (listCommands alternate)]

/-- The commands of actions, one after the other. -/
def listCommands : List Action → List Command
  | [] => []
  | action :: rest => commands action ++ listCommands rest

end

end Action

namespace Routine

/-- The command by which a routine ends, unless it has left already. -/
def exitCommands : Exit → List Command
  | .diverted => []
  | .next name => [.give (.text name)]
  | .stop => [.give .null]

/-- The procedure of a routine. -/
def procedure (r : Routine) : Procedure :=
  ⟨entryName r.name, Command.orPass (Action.listCommands r.body) ++ exitCommands r.exit⟩

end Routine

/-! ### Grouping -/

/-- **A choice opens a menu that takes all choices behind it.** -/
theorem Step.group_of_isChoice {stmt : Statement} (h : stmt.isChoice = true)
    (rest : List Statement) :
    group (stmt :: rest) = .menu (stmt :: rest.takeWhile Statement.isChoice) ::
      group (rest.dropWhile Statement.isChoice) := by
  induction rest generalizing stmt with
  | nil => simp [group, h, consChoice]
  | cons next rest ih =>
    rw [group, if_pos h]
    by_cases hnext : next.isChoice = true
    · rw [ih hnext, consChoice, List.takeWhile_cons_of_pos hnext, List.dropWhile_cons_of_pos hnext]
    · rw [List.takeWhile_cons_of_neg hnext, List.dropWhile_cons_of_neg hnext, group, if_neg hnext]
      rfl

theorem Step.group_of_not_isChoice {stmt : Statement} (h : stmt.isChoice = false)
    (rest : List Statement) : group (stmt :: rest) = .plain stmt :: group rest := by
  rw [group, if_neg (by rw [h]; exact Bool.false_ne_true)]

namespace Action

theorem ofBlock_nil (slot : Nat) : ofBlock slot [] = .ok ([], slot) := by
  rw [ofBlock, Step.group, ofSteps]

/-- A block that starts with a choice starts with a menu. -/
theorem ofBlock_of_isChoice_iff {stmt : Statement} (h : stmt.isChoice = true)
    {rest : List Statement} {slot free : Nat} {actions : List Action} :
    ofBlock slot (stmt :: rest) = .ok (actions, free) ↔
      ∃ actions', ofBlock (slot + 1) (rest.dropWhile Statement.isChoice) = .ok (actions', free) ∧
        actions = .menu slot (stmt :: rest.takeWhile Statement.isChoice) :: actions' := by
  rw [ofBlock, Step.group_of_isChoice h, ofSteps, ofBlock]
  cases ofSteps (slot + 1) (Step.group (rest.dropWhile Statement.isChoice)) with
  | error e => simp
  | ok r =>
    obtain ⟨actions', free'⟩ := r
    constructor
    · rintro ⟨⟩
      exact ⟨actions', rfl, rfl⟩
    · rintro ⟨_, ⟨⟩, rfl⟩
      rfl

theorem ofBlock_of_not_isChoice_iff {stmt : Statement} (h : stmt.isChoice = false)
    {rest : List Statement} {slot free : Nat} {actions : List Action} :
    ofBlock slot (stmt :: rest) = .ok (actions, free) ↔
      ∃ action slot' actions', ofStatement slot stmt = .ok (action, slot') ∧
        ofBlock slot' rest = .ok (actions', free) ∧ actions = action :: actions' := by
  rw [ofBlock, Step.group_of_not_isChoice h, ofSteps]
  cases ofStatement slot stmt with
  | error e => simp
  | ok r =>
    obtain ⟨action, slot'⟩ := r
    simp only [Except.ok.injEq, Prod.mk.injEq]
    cases hrest : ofSteps slot' (Step.group rest) with
    | error e =>
      constructor
      · rintro ⟨⟩
      · rintro ⟨_, _, _, ⟨rfl, rfl⟩, hblock, -⟩
        rw [ofBlock, hrest] at hblock
        cases hblock
    | ok r =>
      obtain ⟨actions', free'⟩ := r
      constructor
      · rintro ⟨⟩
        exact ⟨action, slot', actions', ⟨rfl, rfl⟩, by rw [ofBlock, hrest], rfl⟩
      · rintro ⟨_, _, _, ⟨rfl, rfl⟩, hblock, rfl⟩
        rw [ofBlock, hrest] at hblock
        cases hblock
        rfl

theorem ofStatement_conditional_iff {conditions : List String}
    {consequent alternate : List Statement} {slot free : Nat} {action : Action} :
    ofStatement slot (.conditional conditions consequent alternate) = .ok (action, free) ↔
      ∃ first slot' second, ofBlock slot consequent = .ok (first, slot') ∧
        ofBlock slot' alternate = .ok (second, free) ∧
        action = .branch conditions first second := by
  rw [ofStatement]
  cases ofBlock slot consequent with
  | error e => simp
  | ok r =>
    obtain ⟨first, slot'⟩ := r
    simp only [Except.ok.injEq, Prod.mk.injEq]
    cases hsecond : ofBlock slot' alternate with
    | error e =>
      constructor
      · rintro ⟨⟩
      · rintro ⟨_, _, _, ⟨rfl, rfl⟩, hblock, -⟩
        rw [hsecond] at hblock
        cases hblock
    | ok r =>
      obtain ⟨second, free'⟩ := r
      constructor
      · rintro ⟨⟩
        exact ⟨first, slot', second, ⟨rfl, rfl⟩, hsecond, rfl⟩
      · rintro ⟨_, _, _, ⟨rfl, rfl⟩, hblock, rfl⟩
        rw [hsecond] at hblock
        cases hblock
        rfl

/-! ### Lowering as a relation -/

/-- The actions of a block, with slots from the first number on and the second number left.  Each
statement comes with its actions, so what `ofBlock` does can be followed by induction. -/
inductive Lowers : Nat → List Statement → List Action → Nat → Prop
  | nil {slot : Nat} : Lowers slot [] [] slot
  | menu {slot free : Nat} {stmt : Statement} {rest : List Statement} {actions : List Action} :
      stmt.isChoice = true →
      Lowers (slot + 1) (rest.dropWhile Statement.isChoice) actions free →
      Lowers slot (stmt :: rest)
        (.menu slot (stmt :: rest.takeWhile Statement.isChoice) :: actions) free
  | divert {slot free : Nat} {rest : List Statement} {actions : List Action} (target : String) :
      Lowers slot rest actions free →
      Lowers slot (.divert target :: rest) (.leave target :: actions) free
  | speech {slot free : Nat} {rest : List Statement} {actions : List Action}
      (actor line : String) : Lowers slot rest actions free →
      Lowers slot (.speech actor line :: rest) (.say actor line :: actions) free
  | call {slot free : Nat} {rest : List Statement} {actions : List Action} (name : String)
      (args : List String) : Lowers slot rest actions free →
      Lowers slot (.call name args :: rest) (.call name args :: actions) free
  | script {slot free : Nat} {rest : List Statement} {actions : List Action} (text : String) :
      Lowers slot rest actions free →
      Lowers slot (.script text :: rest) (.code text :: actions) free
  | conditional {slot slot₁ slot₂ free : Nat} {consequent alternate rest : List Statement}
      {first second actions : List Action} (conditions : List String) :
      Lowers slot consequent first slot₁ → Lowers slot₁ alternate second slot₂ →
      Lowers slot₂ rest actions free →
      Lowers slot (.conditional conditions consequent alternate :: rest)
        (.branch conditions first second :: actions) free

theorem Lowers.ofBlock_eq {slot free : Nat} {stmts : List Statement} {actions : List Action}
    (h : Lowers slot stmts actions free) : ofBlock slot stmts = .ok (actions, free) := by
  induction h with
  | nil => exact ofBlock_nil _
  | menu hchoice _ ih => exact (ofBlock_of_isChoice_iff hchoice).mpr ⟨_, ih, rfl⟩
  | divert _ _ ih | speech _ _ _ ih | call _ _ _ ih | script _ _ ih =>
    exact (ofBlock_of_not_isChoice_iff rfl).mpr ⟨_, _, _, by rw [ofStatement], ih, rfl⟩
  | conditional _ _ _ _ ih₁ ih₂ ih =>
    exact (ofBlock_of_not_isChoice_iff rfl).mpr
      ⟨_, _, _, ofStatement_conditional_iff.mpr ⟨_, _, _, ih₁, ih₂, rfl⟩, ih, rfl⟩

/-- **Every block can be lowered.** -/
theorem exists_lowers (stmts : List Statement) (slot : Nat) :
    ∃ actions free, Lowers slot stmts actions free := by
  match stmts with
  | [] => exact ⟨_, _, .nil⟩
  | .divert target :: rest =>
    obtain ⟨_, _, hrest⟩ := exists_lowers rest slot
    exact ⟨_, _, .divert target hrest⟩
  | .speech actor line :: rest =>
    obtain ⟨_, _, hrest⟩ := exists_lowers rest slot
    exact ⟨_, _, .speech actor line hrest⟩
  | .call name args :: rest =>
    obtain ⟨_, _, hrest⟩ := exists_lowers rest slot
    exact ⟨_, _, .call name args hrest⟩
  | .script text :: rest =>
    obtain ⟨_, _, hrest⟩ := exists_lowers rest slot
    exact ⟨_, _, .script text hrest⟩
  | .conditional conditions consequent alternate :: rest =>
    obtain ⟨_, slot₁, hconsequent⟩ := exists_lowers consequent slot
    obtain ⟨_, slot₂, halternate⟩ := exists_lowers alternate slot₁
    obtain ⟨_, _, hrest⟩ := exists_lowers rest slot₂
    exact ⟨_, _, .conditional conditions hconsequent halternate hrest⟩
  | .choice _ _ _ :: rest | .offer _ :: rest =>
    obtain ⟨_, _, hrest⟩ := exists_lowers (rest.dropWhile Statement.isChoice) (slot + 1)
    exact ⟨_, _, .menu rfl hrest⟩
termination_by Statement.listWeight stmts
decreasing_by
  all_goals
    have hle := Statement.listWeight_dropWhile_le Statement.isChoice rest
    simp only [Statement.listWeight, Statement.weight]
    omega

/-- There is one way to lower a block. -/
theorem ofBlock_eq_ok_iff {slot free : Nat} {stmts : List Statement} {actions : List Action} :
    ofBlock slot stmts = .ok (actions, free) ↔ Lowers slot stmts actions free := by
  refine ⟨fun h => ?_, Lowers.ofBlock_eq⟩
  obtain ⟨actions', free', hlowers⟩ := exists_lowers stmts slot
  rw [hlowers.ofBlock_eq] at h
  cases h
  exact hlowers

end Action

/-! ### Agreement -/

/-- What a part of a segment does is what some commands do. -/
def Agrees (p : Played) (x : Option Outcome) : Prop :=
  match p.2 with
  | some label => x = some (.returned (some label) p.1)
  | none => ∃ env, x = some (.onward env p.1)

namespace Command

theorem execBlock_append_of_onward {o : Oracle} {first : List Command} {env env' : Env}
    {h h' : History} (hfirst : execBlock o first env h = some (.onward env' h'))
    (second : List Command) : execBlock o (first ++ second) env h = execBlock o second env' h' := by
  induction first generalizing env h with
  | nil =>
    cases hfirst
    rfl
  | cons command rest ih =>
    rw [execBlock] at hfirst
    rw [List.cons_append, execBlock]
    split at hfirst
    · cases hfirst
    · cases hfirst
    · exact ih hfirst

theorem execBlock_append_of_returned {o : Oracle} {first : List Command} {env : Env}
    {h h' : History} {label : Option String}
    (hfirst : execBlock o first env h = some (.returned label h')) (second : List Command) :
    execBlock o (first ++ second) env h = some (.returned label h') := by
  induction first generalizing env h with
  | nil => cases hfirst
  | cons command rest ih =>
    rw [execBlock] at hfirst
    rw [List.cons_append, execBlock]
    split at hfirst
    · cases hfirst
    · exact hfirst
    · exact ih hfirst

theorem execBlock_singleton (o : Oracle) (command : Command) (env : Env) (h : History) :
    execBlock o [command] env h = exec o command env h := by
  rw [execBlock]
  split
  · rename_i hnone
    rw [hnone]
  · rename_i hreturned
    rw [hreturned]
  · rename_i honward
    rw [honward]
    rfl

theorem execBlock_orPass (o : Oracle) (commands : List Command) (env : Env) (h : History) :
    execBlock o (orPass commands) env h = execBlock o commands env h := by
  cases commands <;> rfl

end Command

/-- **Parts that agree one after the other agree together.** -/
theorem Agrees.append {o : Oracle} {p : Played} {first second : List Command} {env : Env}
    {h : History} {f : History → Played} (hfirst : Agrees p (Command.execBlock o first env h))
    (hsecond : ∀ env' h', Agrees (f h') (Command.execBlock o second env' h')) :
    Agrees (p.onward f) (Command.execBlock o (first ++ second) env h) := by
  obtain ⟨h', stopped⟩ := p
  cases stopped with
  | some label =>
    have hreturned : Command.execBlock o first env h = some (.returned (some label) h') := hfirst
    exact Command.execBlock_append_of_returned hreturned second
  | none =>
    obtain ⟨env', honward⟩ := hfirst
    rw [Command.execBlock_append_of_onward honward]
    exact hsecond env' h'

/-- Conditions are tested in order, and no further than to the first that fails. -/
theorem Test.eval_ofConditions (o : Oracle) (env : Env) {conditions : List String}
    (hne : conditions ≠ []) (h : History) :
    (Test.ofConditions conditions).eval o env h = some (o.holdsAll conditions h) := by
  induction conditions generalizing h with
  | nil => exact absurd rfl hne
  | cons condition conditions ih =>
    cases conditions with
    | nil =>
      rw [Test.ofConditions, Test.eval, Oracle.holdsAll]
      cases hholds : o.holds h condition <;> rfl
    | cons next conditions =>
      rw [Test.ofConditions, Test.eval, Test.eval, Oracle.holdsAll]
      cases hholds : o.holds h condition with
      | false => rfl
      | true => exact ih (List.cons_ne_nil _ _) _
      · exact List.cons_ne_nil _ _

/-! ### The simulation -/

/-- A menu and the test of its answer. -/
theorem agrees_menu (o : Oracle) (slot : Nat) (choices : List Statement) (env : Env)
    (h : History) :
    Agrees (o.present choices h)
      (Command.execBlock o (Action.menu slot choices).commands env h) := by
  let env' := env.declare (Action.variableName slot) (o.answer h choices)
  have hdeclared : env' (Action.variableName slot) = some (o.answer h choices) :=
    env.declare_self _ _
  have hmenu : Command.execBlock o (Action.menu slot choices).commands env h =
      Command.execBlock o [.branch (.answered (Action.variableName slot))
        [.give (.stored (Action.variableName slot))] []] env' (h ++ [.presented choices]) := by
    rw [Action.commands, Command.execBlock, Command.exec]
  rw [hmenu, Command.execBlock, Command.exec, Test.eval, hdeclared, Option.map_some]
  rw [Agrees, Oracle.present]
  cases hanswer : o.answer h choices with
  | none => exact ⟨env', rfl⟩
  | some label =>
    rw [hanswer] at hdeclared
    simp only [Option.isSome_some, Command.execBlock, Command.exec, Value.eval, hdeclared,
      Option.map_some]

namespace Statement

theorem listHasScript_dropWhile (p : Statement → Bool) {stmts : List Statement}
    (h : listHasScript stmts = false) : listHasScript (stmts.dropWhile p) = false := by
  induction stmts with
  | nil => rfl
  | cons stmt stmts ih =>
    rw [List.dropWhile_cons]
    split
    · exact ih (Bool.or_eq_false_iff.mp h).2
    · exact h

end Statement

/-- A conditional asks the same conditions as its branch, so both go on the same way with the same
history. -/
theorem agrees_branch {o : Oracle} {conditions : List String}
    {consequent alternate : List Statement} {first second : List Action} {env : Env}
    (hne : conditions ≠ [])
    (hfirst : ∀ h, Agrees (Statement.playBlock o consequent h)
      (Command.execBlock o (Action.listCommands first) env h))
    (hsecond : ∀ h, Agrees (Statement.playBlock o alternate h)
      (Command.execBlock o (Action.listCommands second) env h)) (h : History) :
    Agrees ((Statement.conditional conditions consequent alternate).play o h)
      (Command.execBlock o (Action.branch conditions first second).commands env h) := by
  rw [Statement.play, Action.commands, Command.execBlock_singleton, Command.exec,
    Test.eval_ofConditions o env hne h]
  obtain ⟨h', allHold⟩ := o.holdsAll conditions h
  cases allHold with
  | true =>
    simp only [if_true, Command.execBlock_orPass]
    exact hfirst h'
  | false =>
    simp only [Bool.false_eq_true, if_false]
    exact hsecond h'

theorem agrees_cons {o : Oracle} {stmt : Statement} {rest : List Statement} {action : Action}
    {actions : List Action} {env : Env} {h : History} (hchoice : stmt.isChoice = false)
    (hfirst : Agrees (stmt.play o h) (Command.execBlock o action.commands env h))
    (hrest : ∀ env' h', Agrees (Statement.playBlock o rest h')
      (Command.execBlock o (Action.listCommands actions) env' h')) :
    Agrees (Statement.playBlock o (stmt :: rest) h)
      (Command.execBlock o (Action.listCommands (action :: actions)) env h) := by
  rw [Statement.playBlock, hchoice, if_neg Bool.false_ne_true, Action.listCommands]
  exact hfirst.append hrest

/-- **The commands of a block do what the block does.** -/
theorem Action.Lowers.agrees {slot free : Nat} {stmts : List Statement} {actions : List Action}
    (hlow : Lowers slot stmts actions free) (hwf : ∀ stmt ∈ stmts, stmt.WellFormed)
    (hscript : Statement.listHasScript stmts = false) (o : Oracle) (env : Env) (h : History) :
    Agrees (Statement.playBlock o stmts h)
      (Command.execBlock o (listCommands actions) env h) := by
  induction hlow generalizing env h with
  | nil =>
    rw [Statement.playBlock]
    exact ⟨env, rfl⟩
  | menu hchoice _ ih =>
    have hrest := ih
      (fun s hs => hwf s (List.mem_cons_of_mem _ (List.dropWhile_subset _ hs)))
      (Statement.listHasScript_dropWhile _ (Bool.or_eq_false_iff.mp hscript).2)
    rw [Statement.playBlock, hchoice, if_pos rfl, listCommands]
    exact (agrees_menu o _ _ env h).append hrest
  | divert target _ ih =>
    refine agrees_cons rfl ?_ (ih (List.forall_mem_cons.mp hwf).2 hscript)
    rw [Statement.play]
    rfl
  | speech _ _ _ ih | call _ _ _ ih =>
    refine agrees_cons rfl ?_ (ih (List.forall_mem_cons.mp hwf).2 hscript)
    rw [Statement.play]
    exact ⟨env, rfl⟩
  | script text _ _ => cases hscript
  | conditional conditions _ _ _ ih₁ ih₂ ih =>
    obtain ⟨hstmt, hrest⟩ := List.forall_mem_cons.mp hwf
    obtain ⟨hbranches, hscript⟩ := Bool.or_eq_false_iff.mp hscript
    obtain ⟨hscript₁, hscript₂⟩ := Bool.or_eq_false_iff.mp hbranches
    cases hstmt with
    | conditional hne _ hconsequent halternate =>
      exact agrees_cons rfl
        (agrees_branch hne (ih₁ hconsequent hscript₁ env) (ih₂ halternate hscript₂ env) h)
        (ih hrest hscript)

/-! ### Segments -/

namespace Routine

theorem exists_eq_append_of_endsWithDivert {stmts : List Statement}
    (h : endsWithDivert stmts = true) : ∃ init target, stmts = init ++ [.divert target] := by
  rw [endsWithDivert] at h
  split at h
  · rename_i target hlast
    obtain ⟨init, hinit⟩ := List.getLast?_eq_some_iff.mp hlast
    exact ⟨init, target, hinit⟩
  · cases h

theorem dropWhile_append_divert (init : List Statement) (target : String) :
    (init ++ [Statement.divert target]).dropWhile Statement.isChoice =
      init.dropWhile Statement.isChoice ++ [.divert target] := by
  induction init with
  | nil => rfl
  | cons stmt init ih =>
    rw [List.cons_append, List.dropWhile_cons, List.dropWhile_cons, ih]
    split <;> rfl

/-- A block that ends with a divert stops its segment, on every way through it. -/
theorem exists_label_of_append_divert (o : Oracle) (init : List Statement) (target : String)
    (h : History) :
    ∃ label, (Statement.playBlock o (init ++ [.divert target]) h).2 = some label := by
  match init with
  | [] =>
    refine ⟨target, ?_⟩
    rw [List.nil_append, Statement.playBlock, Statement.play]
    rfl
  | stmt :: rest =>
    rw [List.cons_append, Statement.playBlock]
    split
    · rw [Played.onward, dropWhile_append_divert]
      split
      · rename_i label _
        exact ⟨label, rfl⟩
      · exact exists_label_of_append_divert o (rest.dropWhile Statement.isChoice) target _
    · rw [Played.onward]
      split
      · rename_i label _
        exact ⟨label, rfl⟩
      · exact exists_label_of_append_divert o rest target _
termination_by init.length
decreasing_by
  all_goals
    have hle := (List.dropWhile_suffix (l := rest) Statement.isChoice).length_le
    simp only [List.length_cons]
    omega

theorem ofSegment_eq_ok_iff {segment : Segment} {next : Option String} {slot free : Nat}
    {r : Routine} : ofSegment segment next slot = .ok (r, free) ↔
      ∃ body, Action.Lowers slot segment.children body free ∧
        r = ⟨segment.name, body, exitOf segment.children next⟩ := by
  simp only [ofSegment, ← Action.ofBlock_eq_ok_iff]
  cases Action.ofBlock slot segment.children with
  | error e => simp
  | ok lowered =>
    obtain ⟨body, free'⟩ := lowered
    constructor
    · rintro ⟨⟩
      exact ⟨body, rfl, rfl⟩
    · rintro ⟨_, ⟨⟩, rfl⟩
      rfl

/-- **Running the procedure of a routine is running its segment.** -/
theorem run_procedure {segment : Segment} {next : Option String} {slot free : Nat} {r : Routine}
    (hlow : ofSegment segment next slot = .ok (r, free))
    (hwf : ∀ stmt ∈ segment.children, stmt.WellFormed)
    (hscript : Statement.listHasScript segment.children = false) (o : Oracle) (h : History) :
    r.procedure.run o h = some (segment.play o next h) := by
  obtain ⟨body, hbody, rfl⟩ := ofSegment_eq_ok_iff.mp hlow
  have hagrees := hbody.agrees hwf hscript o (fun _ => none) h
  rw [← Command.execBlock_orPass] at hagrees
  rw [Procedure.run, procedure, Segment.play]
  cases hplayed : Statement.playBlock o segment.children h with
  | mk h' stopped =>
    rw [hplayed] at hagrees
    cases stopped with
    | some label =>
      -- the body stops the segment
      have hreturned : Command.execBlock o (Command.orPass (Action.listCommands body))
          (fun _ => none) h = some (.returned (some label) h') := hagrees
      simp only [Command.execBlock_append_of_returned hreturned, Played.onward]
    | none =>
      -- the body runs to its end, so it does not end with a divert
      have hend : endsWithDivert segment.children = false := by
        cases hend : endsWithDivert segment.children with
        | false => rfl
        | true =>
          obtain ⟨init, target, hchildren⟩ := exists_eq_append_of_endsWithDivert hend
          obtain ⟨label, hsome⟩ := exists_label_of_append_divert o init target h
          rw [← hchildren, hplayed] at hsome
          cases hsome
      obtain ⟨env, honward⟩ := hagrees
      simp only [Command.execBlock_append_of_onward honward, exitOf, hend, Bool.false_eq_true,
        if_false]
      cases next <;> rfl

end Routine

end Dialogue
