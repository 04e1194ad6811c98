import Dialogue.Proofs.Writing
import Mathlib.Data.List.TakeWhile

/-!
# Runs of choices and their menus

Where a run of choices stands in a script, and where its menu stands in the code.

`Statement.RunAt` finds the maximal runs of choices of a block and of all blocks inside it, with the
number of conditionals around a run and the number of menus in front of it.  A block is lowered part
by part: wherever it is cut, except inside a run, the actions of the whole are those of the parts
(`Action.Lowers.append`).  So the menu of a run can be looked up in the actions, and from there in
the lines of its routine (`Statement.RunAt.menuLines_infix`) and of the program
(`exists_generate_eq`).
-/

namespace Dialogue

/-! ### Runs -/

namespace Statement

/-- A maximal run of choices in a block or in one of the blocks inside it, with the number of
conditionals around it and the number of menus in front of it. -/
inductive RunAt : List Statement → Nat → Nat → List Statement → Prop
  | here {before run after : List Statement} : run ≠ [] → (∀ c ∈ run, c.isChoice = true) →
      (∀ stmt ∈ before.getLast?, stmt.isChoice = false) →
      (∀ stmt ∈ after.head?, stmt.isChoice = false) →
      RunAt (before ++ (run ++ after)) 0 (listMenus before) run
  | consequent {before after consequent alternate run : List Statement}
      {conditions : List String} {depth slot : Nat} : RunAt consequent depth slot run →
      RunAt (before ++ .conditional conditions consequent alternate :: after) (depth + 1)
        (listMenus before + slot) run
  | alternate {before after consequent alternate run : List Statement}
      {conditions : List String} {depth slot : Nat} : RunAt alternate depth slot run →
      RunAt (before ++ .conditional conditions consequent alternate :: after) (depth + 1)
        (listMenus before + (listMenus consequent + slot)) run

end Statement

/-- A maximal run of choices in a script.  The function around it counts as a level. -/
inductive Segment.RunAt : List Segment → Nat → Nat → List Statement → Prop
  | intro {earlier later : List Segment} {segment : Segment} {run : List Statement}
      {depth slot : Nat} : Statement.RunAt segment.children depth slot run →
      RunAt (earlier ++ segment :: later) (depth + 1) (Segment.listMenus earlier + slot) run

/-! ### Lowering part by part -/

namespace Statement

/-- No run of choices goes on from one block into the other. -/
def Parted (stmts stmts' : List Statement) : Prop :=
  (∀ stmt ∈ stmts.getLast?, stmt.isChoice = false) ∨ ∀ stmt ∈ stmts'.head?, stmt.isChoice = false

theorem Parted.of_suffix {stmts₁ stmts₂ stmts' : List Statement} (h : Parted stmts₂ stmts')
    (hsuffix : stmts₁ <:+ stmts₂) : Parted stmts₁ stmts' := by
  obtain ⟨front, rfl⟩ := hsuffix
  refine h.imp_left fun hlast stmt hstmt => hlast stmt ?_
  rw [List.getLast?_append, hstmt]
  rfl

/-- What follows a run of choices that was cut off by its block is no choice. -/
theorem Parted.head_dropWhile {stmt : Statement} {rest stmts' : List Statement}
    (h : Parted (stmt :: rest) stmts') (hchoice : stmt.isChoice = true) :
    ∀ s ∈ (rest.dropWhile isChoice ++ stmts').head?, s.isChoice = false := by
  cases hrest : rest.dropWhile isChoice with
  | nil =>
    -- the block consists of choices, so what follows it is something else
    refine h.resolve_left fun hlast => ?_
    have hall : ∀ c ∈ stmt :: rest, c.isChoice = true :=
      List.forall_mem_cons.mpr ⟨hchoice, List.dropWhile_eq_nil_iff.mp hrest⟩
    have hyes := hall _ (List.getLast_mem (List.cons_ne_nil stmt rest))
    have hno := hlast _ (List.getLast?_eq_some_getLast (List.cons_ne_nil stmt rest))
    rw [hyes] at hno
    cases hno
  | cons s tail =>
    rintro _ ⟨⟩
    have hs := List.head?_dropWhile_not isChoice rest
    rw [hrest] at hs
    exact hs

end Statement

namespace Action

/-- A block is lowered in one way only. -/
theorem Lowers.unique {slot free free' : Nat} {stmts : List Statement}
    {actions actions' : List Action} (h : Lowers slot stmts actions free)
    (h' : Lowers slot stmts actions' free') : actions = actions' ∧ free = free' := by
  have heq := h.ofBlock_eq.symm.trans h'.ofBlock_eq
  cases heq
  exact ⟨rfl, rfl⟩

/-- A block that consists of choices is a menu. -/
theorem lowers_run {run : List Statement} (hne : run ≠ []) (hrun : ∀ c ∈ run, c.isChoice = true)
    (slot : Nat) : Lowers slot run [.menu slot run] (slot + 1) := by
  cases run with
  | nil => exact absurd rfl hne
  | cons c rest =>
    rw [List.forall_mem_cons] at hrun
    have hmenu : Lowers slot (c :: rest) [.menu slot (c :: rest.takeWhile Statement.isChoice)]
        (slot + 1) := by
      refine .menu hrun.1 ?_
      rw [List.dropWhile_eq_nil_iff.mpr hrun.2]
      exact .nil
    rwa [List.takeWhile_eq_self_iff.mpr hrun.2] at hmenu

/-- **The actions of a block are those of its parts**, wherever it is cut except inside a run of
choices. -/
theorem Lowers.append {slot mid free : Nat} {stmts stmts' : List Statement}
    {actions actions' : List Action} (h : Lowers slot stmts actions mid)
    (h' : Lowers mid stmts' actions' free) (hparted : Statement.Parted stmts stmts') :
    Lowers slot (stmts ++ stmts') (actions ++ actions') free := by
  induction h with
  | nil => exact h'
  | @menu _ _ stmt rest _ hchoice _ ih =>
    -- the menu ends where it ended, and the rest of the block is followed by the other one
    have hrun : ∀ c ∈ rest.takeWhile Statement.isChoice, c.isChoice = true :=
      fun _ hc => List.mem_takeWhile_imp hc
    obtain ⟨htake, hdrop⟩ := Lexer.takeWhile_append_of_stop hrun (hparted.head_dropWhile hchoice)
    rw [← List.append_assoc, List.takeWhile_append_dropWhile] at htake hdrop
    have hsuffix : rest.dropWhile Statement.isChoice <:+ stmt :: rest :=
      (List.dropWhile_suffix _).trans (List.suffix_cons _ _)
    rw [List.cons_append, List.cons_append, ← htake]
    apply Lowers.menu hchoice
    rw [hdrop]
    exact ih h' (hparted.of_suffix hsuffix)
  | divert target _ ih => exact .divert target (ih h' (hparted.of_suffix (List.suffix_cons _ _)))
  | speech actor line _ ih =>
    exact .speech actor line (ih h' (hparted.of_suffix (List.suffix_cons _ _)))
  | call name args _ ih => exact .call name args (ih h' (hparted.of_suffix (List.suffix_cons _ _)))
  | script text _ ih => exact .script text (ih h' (hparted.of_suffix (List.suffix_cons _ _)))
  | conditional conditions h₁ h₂ _ _ _ ih =>
    exact .conditional conditions h₁ h₂ (ih h' (hparted.of_suffix (List.suffix_cons _ _)))

/-- A conditional inside a block: its branches are lowered one after the other, from the slot that
is left by what stands in front of it. -/
theorem Lowers.exists_branch {slot free : Nat} {before after consequent alternate : List Statement}
    {conditions : List String} {actions : List Action}
    (h : Lowers slot (before ++ .conditional conditions consequent alternate :: after) actions
      free) :
    ∃ front first second back mid, actions = front ++ .branch conditions first second :: back ∧
      Lowers (slot + Statement.listMenus before) consequent first
        (slot + Statement.listMenus before + Statement.listMenus consequent) ∧
      Lowers (slot + Statement.listMenus before + Statement.listMenus consequent) alternate second
        mid := by
  obtain ⟨front, slot₁, hfront⟩ := exists_lowers before slot
  obtain ⟨first, slot₂, hfirst⟩ := exists_lowers consequent slot₁
  obtain ⟨second, slot₃, hsecond⟩ := exists_lowers alternate slot₂
  obtain ⟨back, free', hback⟩ := exists_lowers after slot₃
  have hcut : ∀ stmt ∈ (Statement.conditional conditions consequent alternate :: after).head?,
      stmt.isChoice = false := by
    rintro _ ⟨⟩
    rfl
  have hbranch := hfront.append (.conditional conditions hfirst hsecond hback) (.inr hcut)
  rw [← hfront.free_eq, ← hfirst.free_eq]
  exact ⟨front, first, second, back, slot₃, (h.unique hbranch).1, hfirst, hsecond⟩

/-! ### Lines of actions -/

theorem listLines_append (depth : Nat) (actions actions' : List Action) :
    listLines depth (actions ++ actions') = listLines depth actions ++ listLines depth actions' := by
  induction actions with
  | nil => rfl
  | cons a actions ih => rw [List.cons_append, listLines, listLines, ih, List.append_assoc]

/-- The lines of an action stand among those of the block. -/
theorem lines_infix_listLines (depth : Nat) (before : List Action) (a : Action)
    (after : List Action) : a.lines depth <:+: listLines depth (before ++ a :: after) := by
  rw [listLines_append, listLines]
  exact List.infix_append' _ _ _

theorem orPass_of_ne_nil {ls : List Line} (h : ls ≠ []) (depth : Nat) : orPass depth ls = ls := by
  rw [orPass, if_neg (by simpa using h)]

/-- The lines of the first branch stand among those of the conditional, unless there are none. -/
theorem listLines_infix_branch_first {depth : Nat} {first : List Action}
    (h : listLines (depth + 1) first ≠ []) (conditions : List String) (second : List Action) :
    listLines (depth + 1) first <:+: (branch conditions first second).lines depth := by
  rw [lines, orPass_of_ne_nil h]
  exact List.infix_append' [_] _ _

theorem listLines_infix_branch_second {depth : Nat} {second : List Action}
    (h : listLines (depth + 1) second ≠ []) (conditions : List String) (first : List Action) :
    listLines (depth + 1) second <:+: (branch conditions first second).lines depth := by
  have hne : second.isEmpty = false := by
    cases second with
    | nil => exact absurd rfl h
    | cons => rfl
  rw [lines, hne, if_neg Bool.false_ne_true, ← List.cons_append]
  exact ((List.suffix_cons _ _).trans (List.suffix_append _ _)).isInfix

end Action

/-- **The menu of a run stands among the lines of the block**, as deep as the run does and in the
slot that the menus in front of it leave. -/
theorem Statement.RunAt.menuLines_infix {stmts run : List Statement} {depth offset : Nat}
    (h : RunAt stmts depth offset run) {slot free : Nat} {actions : List Action}
    (hlowers : Action.Lowers slot stmts actions free) (level : Nat) :
    Action.menuLines (level + depth) (slot + offset) run <:+: Action.listLines level actions := by
  induction h generalizing slot free actions level with
  | @here before run after hne hrun hbefore hafter =>
    obtain ⟨first, mid, hfirst⟩ := Action.exists_lowers before slot
    obtain ⟨second, free', hsecond⟩ := Action.exists_lowers after (mid + 1)
    have hrest := (Action.lowers_run hne hrun mid).append hsecond (.inr hafter)
    obtain ⟨rfl, -⟩ := hlowers.unique (hfirst.append hrest (.inl hbefore))
    rw [← hfirst.free_eq]
    exact Action.lines_infix_listLines level first (.menu mid run) second
  | consequent _ ih =>
    obtain ⟨front, first, second, back, -, rfl, hfirst, -⟩ := hlowers.exists_branch
    have hmenu := ih hfirst (level + 1)
    -- the conditional is one level more, and its menus come behind those in front of it
    rw [Nat.add_right_comm, Nat.add_assoc, Nat.add_assoc] at hmenu
    have hne := hmenu.ne_nil (List.cons_ne_nil _ _)
    exact (hmenu.trans (Action.listLines_infix_branch_first hne _ second)).trans
      (Action.lines_infix_listLines level front _ back)
  | alternate _ ih =>
    obtain ⟨front, first, second, back, mid, rfl, -, hsecond⟩ := hlowers.exists_branch
    have hmenu := ih hsecond (level + 1)
    rw [Nat.add_right_comm, Nat.add_assoc, Nat.add_assoc, Nat.add_assoc] at hmenu
    have hne := hmenu.ne_nil (List.cons_ne_nil _ _)
    exact (hmenu.trans (Action.listLines_infix_branch_second hne _ first)).trans
      (Action.lines_infix_listLines level front _ back)

/-! ### Lines of programs -/

namespace Routine

/-- The first routine is that of the first segment; the others are numbered from where it stops. -/
theorem ofSegments_cons_eq_ok {segment : Segment} {rest : List Segment} {slot : Nat}
    {routines : List Routine} (h : ofSegments slot (segment :: rest) = .ok routines) :
    ∃ body exit routines', routines = ⟨segment.name, body, exit⟩ :: routines' ∧
      Action.Lowers slot segment.children body (slot + segment.menus) ∧
      ofSegments (slot + segment.menus) rest = .ok routines' := by
  obtain ⟨r, hsegment, -⟩ := exists_routine segment (rest.head?.map (·.name)) slot 0
  obtain ⟨body, hbody, rfl⟩ := ofSegment_eq_ok_iff.mp hsegment
  rw [ofSegments, hsegment] at h
  cases hrest : ofSegments (slot + segment.menus) rest with
  | error e =>
    simp only [hrest] at h
    cases h
  | ok routines' =>
    simp only [hrest] at h
    cases h
    exact ⟨body, _, routines', rfl, hbody, rfl⟩

theorem listLines_infix_lines (r : Routine) (h : Action.listLines 1 r.body ≠ []) :
    Action.listLines 1 r.body <:+: r.lines := by
  rw [lines, Action.orPass_of_ne_nil h, List.append_assoc]
  exact List.infix_append' [_] _ _

end Routine

theorem Segment.RunAt.menuLines_infix {segments : List Segment} {run : List Statement}
    {depth offset : Nat} (h : Segment.RunAt segments depth offset run) {slot : Nat}
    {routines : List Routine} (hroutines : Routine.ofSegments slot segments = .ok routines) :
    Action.menuLines depth (slot + offset) run <:+: Routine.listLines routines := by
  obtain @⟨earlier, later, segment, run, depth, offset, hrun⟩ := h
  induction earlier generalizing slot routines with
  | nil =>
    obtain ⟨body, exit, routines', rfl, hbody, -⟩ := Routine.ofSegments_cons_eq_ok hroutines
    have hmenu := hrun.menuLines_infix hbody 1
    have hlines : Action.listLines 1 body <:+: Routine.lines ⟨segment.name, body, exit⟩ :=
      Routine.listLines_infix_lines ⟨_, _, _⟩ (hmenu.ne_nil (List.cons_ne_nil _ _))
    rw [Nat.add_comm 1 depth] at hmenu
    rw [Segment.listMenus, Nat.zero_add, Routine.listLines]
    exact (hmenu.trans hlines).trans (List.prefix_append _ _).isInfix
  | cons first earlier ih =>
    obtain ⟨body, exit, routines', rfl, -, hrest⟩ := Routine.ofSegments_cons_eq_ok hroutines
    have hmenu := ih hrest
    rw [Nat.add_assoc, ← Nat.add_assoc first.menus] at hmenu
    rw [Routine.listLines]
    exact hmenu.trans (List.suffix_append _ _).isInfix

/-- **Every run of choices has its menu in the program.** -/
theorem exists_generate_eq (width : Nat) (segments : List Segment) :
    ∃ ls, generate width segments = .ok (Line.terminated width ls) ∧
      ∀ {depth slot : Nat} {run : List Statement}, Segment.RunAt segments depth slot run →
        Action.menuLines depth slot run <:+: ls := by
  obtain ⟨routines, hroutines, -⟩ := exists_ofSegments_terminated segments 0 width
  refine ⟨_, by rw [generate, programLines, hroutines], fun hrun => ?_⟩
  have hmenu := hrun.menuLines_infix hroutines
  rw [Nat.zero_add] at hmenu
  exact hmenu.trans (List.suffix_append _ _).isInfix

end Dialogue
