import Dialogue.Proofs.Lexemes
import Dialogue.Proofs.Lowering
import Mathlib.Data.List.Chain

/-!
# The one way to group choices

`Step.Groups` says what a grouping of statements is without saying how it is found: the steps hold
the statements in order, a menu has choices and nothing else, every choice is in a menu, and no menu
follows another one.  A run of choices can then be neither cut in two nor joined with anything, so
statements have one grouping only (`Step.Groups.eq_group`).

There is more than one way to find it.  `Step.group` goes through the statements from the last to
the first.  `Step.push` goes the other way: it puts one statement behind the steps made so far, and
looks at nothing but the last of them.  Each `push` keeps the steps a grouping of what has been read
(`Step.Groups.push`), so after the last statement both have found the same.
-/

namespace Dialogue.Step

/-! ### Groupings -/

/-- The statements of a step. -/
def statements : Step → List Statement
  | menu choices => choices
  | plain stmt => [stmt]

/-- Whether a step is a menu. -/
def isMenu : Step → Bool
  | menu _ => true
  | plain _ => false

/-- What a step may be: a menu has at least one choice and nothing else, and a plain statement is no
choice. -/
def Sound : Step → Prop
  | menu choices => choices ≠ [] ∧ ∀ c ∈ choices, c.isChoice = true
  | plain stmt => stmt.isChoice = false

/-- What may follow a step: behind a menu, no other menu. -/
def Precedes (first second : Step) : Prop :=
  ¬ (first.isMenu = true ∧ second.isMenu = true)

/-- **The steps group the statements.** -/
structure Groups (steps : List Step) (stmts : List Statement) : Prop where
  /-- No statement is lost, added or moved. -/
  flatMap_statements : steps.flatMap statements = stmts
  sound : ∀ step ∈ steps, step.Sound
  isChain : steps.IsChain Precedes

theorem groups_nil : Groups [] [] :=
  ⟨rfl, List.forall_mem_nil _, .nil⟩

/-- A grouping up to its last step. -/
theorem groups_concat_iff {steps : List Step} {step : Step} {stmts : List Statement} :
    Groups (steps ++ [step]) stmts ↔ ∃ before, stmts = before ++ step.statements ∧
      Groups steps before ∧ step.Sound ∧ ∀ last ∈ steps.getLast?, last.Precedes step := by
  have hflat : (steps ++ [step]).flatMap statements =
      steps.flatMap statements ++ step.statements := by
    rw [List.flatMap_append, List.flatMap_singleton]
  constructor
  · rintro ⟨rfl, hsound, hchain⟩
    rw [List.forall_mem_append, List.forall_mem_singleton] at hsound
    rw [List.isChain_append] at hchain
    obtain ⟨hfront, -, hbetween⟩ := hchain
    exact ⟨_, hflat, ⟨rfl, hsound.1, hfront⟩, hsound.2,
      fun last hlast => hbetween last hlast step rfl⟩
  · rintro ⟨before, rfl, ⟨rfl, hsound, hfront⟩, hstep, hlast⟩
    refine ⟨hflat, ?_, ?_⟩
    · rw [List.forall_mem_append, List.forall_mem_singleton]
      exact ⟨hsound, hstep⟩
    · refine List.isChain_append.mpr ⟨hfront, .singleton step, fun last hmem _ hhead => ?_⟩
      cases hhead
      exact hlast last hmem

/-! ### From the first statement to the last -/

/-- A statement behind steps: a choice joins the menu that comes last, if there is one. -/
def push (steps : List Step) (stmt : Statement) : List Step :=
  if stmt.isChoice then
    match steps.getLast? with
    | some (.menu choices) => steps.dropLast ++ [.menu (choices ++ [stmt])]
    | _ => steps ++ [.menu [stmt]]
  else steps ++ [.plain stmt]

/-- **What one statement does to the steps in front of it.** -/
theorem push_cases (steps : List Step) (stmt : Statement) :
    (stmt.isChoice = false ∧ push steps stmt = steps ++ [.plain stmt]) ∨
      (stmt.isChoice = true ∧ (∀ last ∈ steps.getLast?, last.isMenu = false) ∧
        push steps stmt = steps ++ [.menu [stmt]]) ∨
      (stmt.isChoice = true ∧ ∃ front choices, steps = front ++ [.menu choices] ∧
        push steps stmt = front ++ [.menu (choices ++ [stmt])]) := by
  unfold push
  by_cases hstmt : stmt.isChoice = true
  · rw [if_pos hstmt]
    rcases List.eq_nil_or_concat steps with rfl | ⟨front, last, rfl⟩
    · exact .inr (.inl ⟨hstmt, by simp, rfl⟩)
    · rw [List.concat_eq_append, List.getLast?_concat, List.dropLast_concat]
      cases last with
      | plain other =>
        refine .inr (.inl ⟨hstmt, ?_, rfl⟩)
        rintro _ ⟨⟩
        rfl
      | menu choices => exact .inr (.inr ⟨hstmt, front, choices, rfl, rfl⟩)
  · rw [if_neg hstmt]
    exact .inl ⟨eq_false_of_ne_true hstmt, rfl⟩

/-- **One more statement is grouped with those before it.** -/
theorem Groups.push {steps : List Step} {stmts : List Statement} (h : Groups steps stmts)
    (stmt : Statement) : Groups (push steps stmt) (stmts ++ [stmt]) := by
  obtain ⟨hstmt, heq⟩ | ⟨hstmt, hlast, heq⟩ | ⟨hstmt, front, choices, rfl, heq⟩ :=
    push_cases steps stmt
  · rw [heq]
    refine groups_concat_iff.mpr ⟨stmts, rfl, h, hstmt, fun last _ => ?_⟩
    rintro ⟨-, ⟨⟩⟩
  · rw [heq]
    refine groups_concat_iff.mpr ⟨stmts, rfl, h, ?_, fun last hmem => ?_⟩
    · exact ⟨List.cons_ne_nil _ _, List.forall_mem_singleton.mpr hstmt⟩
    · rintro ⟨hmenu, -⟩
      rw [hlast last hmem] at hmenu
      cases hmenu
  · -- the menu grows, and what stands in front of it stays
    rw [heq]
    obtain ⟨before, rfl, hfront, ⟨hne, hchoices⟩, hprecedes⟩ := groups_concat_iff.mp h
    refine groups_concat_iff.mpr ⟨before, ?_, hfront, ?_, hprecedes⟩
    · exact List.append_assoc before choices [stmt]
    · exact ⟨List.append_ne_nil_of_left_ne_nil hne _,
        List.forall_mem_append.mpr ⟨hchoices, List.forall_mem_singleton.mpr hstmt⟩⟩

/-- Statements read behind a grouping are grouped with those before them. -/
theorem Groups.foldl_push {steps : List Step} {before : List Statement} (h : Groups steps before)
    (stmts : List Statement) : Groups (stmts.foldl Step.push steps) (before ++ stmts) := by
  induction stmts generalizing steps before with
  | nil =>
    rw [List.append_nil]
    exact h
  | cons stmt stmts ih =>
    have hrest := ih (h.push stmt)
    rw [List.append_assoc, List.singleton_append] at hrest
    exact hrest

/-! ### From the last statement to the first -/

/-- Choices in front of something else are a menu. -/
theorem group_append {choices rest : List Statement} (hne : choices ≠ [])
    (hchoices : ∀ c ∈ choices, c.isChoice = true)
    (hrest : ∀ stmt ∈ rest.head?, stmt.isChoice = false) :
    group (choices ++ rest) = .menu choices :: group rest := by
  cases choices with
  | nil => exact absurd rfl hne
  | cons first choices =>
    obtain ⟨hfirst, hchoices⟩ := List.forall_mem_cons.mp hchoices
    obtain ⟨htake, hdrop⟩ := Lexer.takeWhile_append_of_stop hchoices hrest
    rw [List.cons_append, group_of_isChoice hfirst, htake, hdrop]

/-- What stands behind a menu starts with something else than a choice. -/
theorem isChoice_of_head?_flatMap {choices : List Statement} {steps : List Step}
    (hsound : ∀ step ∈ steps, step.Sound) (hchain : (menu choices :: steps).IsChain Precedes) :
    ∀ stmt ∈ (steps.flatMap statements).head?, stmt.isChoice = false := by
  cases steps with
  | nil => rintro _ ⟨⟩
  | cons step rest =>
    cases step with
    | menu others => exact absurd ⟨rfl, rfl⟩ (List.isChain_cons_cons.mp hchain).1
    | plain stmt =>
      rintro _ ⟨⟩
      exact hsound (.plain stmt) List.mem_cons_self

/-- **Statements have one grouping only.** -/
theorem Groups.eq_group {steps : List Step} {stmts : List Statement} (h : Groups steps stmts) :
    steps = group stmts := by
  obtain ⟨rfl, hsound, hchain⟩ := h
  induction steps with
  | nil => rfl
  | cons step steps ih =>
    obtain ⟨hstep, hsteps⟩ := List.forall_mem_cons.mp hsound
    have hrest := ih hsteps hchain.tail
    rw [List.flatMap_cons]
    cases step with
    | menu choices =>
      rw [statements, group_append hstep.1 hstep.2 (isChoice_of_head?_flatMap hsteps hchain),
        ← hrest]
    | plain stmt =>
      rw [statements, List.singleton_append, group_of_not_isChoice hstep, ← hrest]

theorem foldl_push_eq_group (stmts : List Statement) : stmts.foldl push [] = group stmts :=
  (groups_nil.foldl_push stmts).eq_group

theorem groups_group (stmts : List Statement) : Groups (group stmts) stmts := by
  rw [← foldl_push_eq_group]
  exact groups_nil.foldl_push stmts

/-- **Grouping finds the only grouping there is**, and it finds the same whether it starts with the
last statement or with the first. -/
theorem groups_iff_eq_group (stmts : List Statement) :
    (∀ steps, Groups steps stmts ↔ steps = group stmts) ∧ stmts.foldl push [] = group stmts := by
  refine ⟨fun steps => ⟨Groups.eq_group, ?_⟩, foldl_push_eq_group stmts⟩
  rintro rfl
  exact groups_group stmts

/-- Something else than a choice parts two menus. -/
example (line : String) : group [.choice "one" [] none, .offer (.line "two" none),
      .speech "alice" line, .choice "three" [] none] =
    [.menu [.choice "one" [] none, .offer (.line "two" none)], .plain (.speech "alice" line),
      .menu [.choice "three" [] none]] :=
  rfl

end Dialogue.Step
