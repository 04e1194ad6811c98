import Dialogue.Proofs.GeneratedLines
import Dialogue.Proofs.Lowering
import Mathlib.Data.List.TakeWhile

/-!
# Generated programs are read back

The trees of an action are read as the commands that the action stands for
(`Action.readItems_trees`), the tree of a routine as its procedure (`Routine.readProcedure_tree`),
and so the text of a program as the procedures of its routines (`readProgram_routines`).  What
lowering makes of statements without code can be read in this way (`Action.Lowers.readable`).
-/

namespace Dialogue

/-! ### Trees are laid out by indentation -/

namespace Action

variable {width : Nat}

theorem lt_indent (hwidth : 1 ≤ width) (depth : Nat) : depth * width < (depth + 1) * width := by
  rw [Nat.succ_mul]
  omega

theorem laid_orPassTrees {n : Nat} {ts : List Tree} (h : ∀ t ∈ ts, t.Laid n) :
    ∀ t ∈ orPassTrees n ts, t.Laid n := by
  rw [orPassTrees]
  split
  · intro t ht
    rw [List.mem_singleton.mp ht]
    exact Tree.laid_leaf (by simp) n
  · exact h

mutual

theorem laid_trees (hwidth : 1 ≤ width) : (a : Action) → (depth : Nat) →
    ∀ t ∈ a.trees width depth, t.Laid (depth * width)
  | say actor line, depth => by
    rw [trees, List.forall_mem_singleton]
    exact Tree.laid_leaf (by simp) _
  | leave target, depth => by
    rw [trees, List.forall_mem_singleton]
    exact Tree.laid_leaf (by simp) _
  | call name args, depth => by
    rw [trees, List.forall_mem_singleton]
    exact Tree.laid_leaf (by simp) _
  | code _, _ => nofun
  | menu slot choices, depth => by
    rw [trees, List.forall_mem_cons, List.forall_mem_singleton]
    refine ⟨Tree.laid_leaf (by simp [menuAtoms]) _, .node (by simp) (lt_indent hwidth depth) ?_⟩
    rw [List.forall_mem_singleton]
    exact Tree.laid_leaf (by simp) _
  | branch conditions consequent alternate, depth => by
    rw [trees, List.forall_mem_cons]
    have hyes := laid_orPassTrees (laid_listTrees hwidth consequent (depth + 1))
    refine ⟨.node (by simp) (lt_indent hwidth depth) hyes, ?_⟩
    split
    · nofun
    · rw [List.forall_mem_singleton]
      exact .node (by simp) (lt_indent hwidth depth) (laid_listTrees hwidth alternate (depth + 1))

theorem laid_listTrees (hwidth : 1 ≤ width) : (actions : List Action) → (depth : Nat) →
    ∀ t ∈ listTrees width depth actions, t.Laid (depth * width)
  | [], _ => nofun
  | a :: rest, depth => by
    rw [listTrees, List.forall_mem_append]
    exact ⟨laid_trees hwidth a depth, laid_listTrees hwidth rest depth⟩

end

end Action

/-! ### What a line says -/

/-- A list whose items all have a comma behind them. -/
theorem Json.take_listed (items : List Json) (rest : List Atom) :
    Json.take (.mark '[' :: (listedAtoms items ++ .mark ']' :: rest)) =
      some (.list items, rest) := by
  have hitems : ∀ done, Reader.take ⟨none, [.list done]⟩ (listedAtoms items ++ .mark ']' :: rest) =
      some (.list (done ++ items), rest) := by
    induction items with
    | nil =>
      intro done
      rw [listedAtoms, List.nil_append, List.append_nil, Reader.take_none rfl, Reader.take]
    | cons item items ih =>
      intro done
      have hopen : ∀ f ∈ [Frame.list done].head?, f.Open := by
        rintro _ ⟨⟩
        trivial
      rw [listedAtoms, List.append_assoc, take_value item _ hopen, List.cons_append,
        Reader.take_some rfl, ih, List.append_assoc, List.singleton_append]
  rw [take, Reader.take_none rfl, hitems [], List.nil_append]

theorem mapM_ofChoiceJson? {choices : List Statement} (h : ∀ c ∈ choices, c.isChoice = true) :
    (choices.map Statement.toJson).mapM Statement.ofChoiceJson? = some choices := by
  have hchoices : ∀ c ∈ choices, Statement.ofChoiceJson? c.toJson = some (id c) :=
    fun c hc => Statement.ofChoiceJson?_toJson (h c hc)
  rw [mapM_map_eq_some hchoices, List.map_id]

theorem readHead_menu (slot : Nat) {choices : List Statement}
    (h : ∀ c ∈ choices, c.isChoice = true) :
    readHead (Action.menuAtoms slot choices) =
      some (.leaf (.menu (Action.variableName slot) choices)) := by
  have htake := Json.take_listed (choices.map Statement.toJson) [.mark ')']
  have hmenu : readHead (Action.menuAtoms slot choices) =
      readMenu (.word (Action.variableName slot) :: .mark '=' :: .word "yield" :: .word "menu" ::
        .mark '(' :: .mark '[' :: (Json.listedAtoms (choices.map Statement.toJson) ++
          [.mark ']', .mark ')'])) := rfl
  rw [hmenu, readMenu, if_pos ⟨rfl, rfl⟩, htake]
  simp only [mapM_ofChoiceJson? h, Option.map_some]

theorem readHead_call (name : String) (args : List String) :
    readHead ([.word "call_macro", .mark '(', .text name, .mark ','] ++
      ((Json.ofTexts args).atoms ++ [.mark ')'])) = some (.leaf (.call name args)) := by
  have htake := Json.take_atoms (Json.ofTexts args) [.mark ')']
  have hcall : readHead ([.word "call_macro", .mark '(', .text name, .mark ','] ++
      ((Json.ofTexts args).atoms ++ [.mark ')'])) =
      readCall (.mark '(' :: .text name :: .mark ',' ::
        ((Json.ofTexts args).atoms ++ [.mark ')'])) := rfl
  rw [hcall, readCall, htake, Json.ofTexts]
  simp only [Json.mapM_text?, Option.map_some]

theorem readTest_conditions : (conditions : List String) → conditions ≠ [] →
    readTest ([.mark '&', .mark '&'].intercalate (conditions.map conditionAtoms) ++ [.mark ':']) =
      some (.ofConditions conditions)
  | [], h => absurd rfl h
  | [condition], _ => rfl
  | condition :: next :: conditions, _ => by
    have hrest := readTest_conditions (next :: conditions) (List.cons_ne_nil _ _)
    rw [List.map_cons] at hrest
    rw [List.map_cons, List.map_cons, List.intercalate_cons_cons, List.append_assoc,
      List.append_assoc, conditionAtoms]
    simp only [List.cons_append, List.nil_append]
    rw [readTest, if_pos rfl, hrest]
    rfl

theorem variableName_ne_null (slot : Nat) : Action.variableName slot ≠ "null" := by
  intro h
  have hchars := congrArg String.toList h
  rw [Action.variableName, String.toList_append] at hchars
  simp at hchars

theorem readHead_return {name : String} (h : name ≠ "null") :
    readHead [.word "return", .word name] = some (.leaf (.give (.stored name))) := by
  have hreturn : readHead [.word "return", .word name] =
      some (.leaf (.give (if name = "null" then .null else .stored name))) := rfl
  rw [hreturn, if_neg h]

theorem readHead_if {conditions : List String} (h : conditions ≠ []) :
    readHead (.word "if" :: ([.mark '&', .mark '&'].intercalate (conditions.map conditionAtoms) ++
      [.mark ':'])) = some (.if_ (.ofConditions conditions)) := by
  have hif (as : List Atom) : readHead (.word "if" :: as) = (readTest as).map .if_ := rfl
  rw [hif, readTest_conditions conditions h, Option.map_some]

/-! ### Blocks -/

section Items

variable {n : Nat} {as : List Atom} {children rest : List Tree} {commands block : List Command}

theorem readItems_nil : readItems [] = some (none, []) := by
  rw [readItems]

theorem readItems_leaf {command : Command} (hhead : readHead as = some (.leaf command))
    (hrest : readItems rest = some (none, commands)) :
    readItems (.node n as [] :: rest) = some (none, command :: commands) := by
  rw [readItems, hrest, hhead]
  rfl

theorem readItems_if {test : Test} {otherwise : Option (List Command)}
    (hhead : readHead as = some (.if_ test)) (hchildren : readItems children = some (none, block))
    (hblock : block ≠ []) (hrest : readItems rest = some (otherwise, commands)) :
    readItems (.node n as children :: rest) =
      some (none, .branch test block (otherwise.getD []) :: commands) := by
  obtain ⟨command, block, rfl⟩ := List.exists_cons_of_ne_nil hblock
  rw [readItems, hrest, hhead, hchildren]
  cases otherwise <;> rfl

theorem readItems_else (hchildren : readItems children = some (none, block)) (hblock : block ≠ [])
    (hrest : readItems rest = some (none, commands)) :
    readItems (.node n [.word "else", .mark ':'] children :: rest) =
      some (some block, commands) := by
  obtain ⟨command, block, rfl⟩ := List.exists_cons_of_ne_nil hblock
  have hhead : readHead [.word "else", .mark ':'] = some .else_ := rfl
  rw [readItems, hrest, hhead, hchildren]
  rfl

end Items

namespace Action

theorem Readable.commands_ne_nil {a : Action} (h : a.Readable) : a.commands ≠ [] := by
  cases h <;> simp [commands]

theorem listCommands_ne_nil {actions : List Action} (hne : actions ≠ [])
    (h : ∀ a ∈ actions, a.Readable) : listCommands actions ≠ [] := by
  obtain ⟨a, rest, rfl⟩ := List.exists_cons_of_ne_nil hne
  have ha := (h a List.mem_cons_self).commands_ne_nil
  simp [listCommands, ha]

theorem orPass_ne_nil (commands : List Command) : Command.orPass commands ≠ [] := by
  cases commands <;> simp [Command.orPass]

/-- `pass` stands for a block without commands. -/
theorem readItems_orPass {width depth n : Nat} {actions : List Action}
    (hactions : ∀ a ∈ actions, a.Readable) {rest : List Tree} {commands : List Command}
    (hrest : readItems rest = some (none, commands))
    (h : readItems (listTrees width depth actions ++ rest) =
      some (none, listCommands actions ++ commands)) :
    readItems (orPassTrees n (listTrees width depth actions) ++ rest) =
      some (none, Command.orPass (listCommands actions) ++ commands) := by
  cases actions with
  | nil => exact readItems_leaf rfl hrest
  | cons a others =>
    have htrees : (listTrees width depth (a :: others)).isEmpty = false := by
      simp [listTrees, (hactions a List.mem_cons_self).trees_ne_nil]
    have hcommands : (listCommands (a :: others)).isEmpty = false := by
      simp [listCommands, (hactions a List.mem_cons_self).commands_ne_nil]
    rw [orPassTrees, htrees, Command.orPass, hcommands]
    exact h

mutual

/-- **The trees of an action are read as its commands.** -/
theorem readItems_trees (width : Nat) : (a : Action) → a.Readable → (depth : Nat) →
    (rest : List Tree) → (commands : List Command) → readItems rest = some (none, commands) →
    readItems (a.trees width depth ++ rest) = some (none, a.commands ++ commands)
  | say actor line, _, _, _, _, hrest => readItems_leaf rfl hrest
  | leave target, _, _, _, _, hrest => readItems_leaf rfl hrest
  | call name args, _, _, _, _, hrest => readItems_leaf (readHead_call name args) hrest
  | code _, h, _, _, _, _ => nomatch h
  | menu slot choices, h, depth, rest, commands, hrest => by
    cases h with
    | menu _ hchoices =>
      have hgive := readHead_return (variableName_ne_null slot)
      have hanswer : readItems [.node ((depth + 1) * width)
          [.word "return", .word (variableName slot)] []] =
          some (none, [.give (.stored (variableName slot))]) := readItems_leaf hgive readItems_nil
      have htest : readHead [.word "if", .word (variableName slot), .mark '!', .mark '=',
          .word "null", .mark ':'] = some (.if_ (.answered (variableName slot))) := rfl
      exact readItems_leaf (readHead_menu slot hchoices)
        (readItems_if htest hanswer (List.cons_ne_nil _ _) hrest)
  | branch conditions consequent alternate, h, depth, rest, commands, hrest => by
    cases h with
    | branch hconditions hconsequent halternate =>
      have htest := readHead_if hconditions
      have hyes := readItems_listTrees width consequent hconsequent (depth + 1) [] [] readItems_nil
      have hblock := readItems_orPass hconsequent readItems_nil hyes (n := (depth + 1) * width)
      rw [List.append_nil, List.append_nil] at hblock
      rw [trees, Action.commands, List.cons_append]
      -- an `else` is written only for an alternate with actions
      cases alternate with
      | nil => exact readItems_if htest hblock (orPass_ne_nil _) hrest
      | cons a others =>
        have hno := readItems_listTrees width (a :: others) halternate (depth + 1) [] []
          readItems_nil
        rw [List.append_nil, List.append_nil] at hno
        have hne := listCommands_ne_nil (List.cons_ne_nil a others) halternate
        exact readItems_if htest hblock (orPass_ne_nil _) (readItems_else hno hne hrest)

theorem readItems_listTrees (width : Nat) : (actions : List Action) →
    (∀ a ∈ actions, a.Readable) → (depth : Nat) → (rest : List Tree) →
    (commands : List Command) → readItems rest = some (none, commands) →
    readItems (listTrees width depth actions ++ rest) =
      some (none, listCommands actions ++ commands)
  | [], _, _, _, _, hrest => hrest
  | a :: others, h, depth, rest, commands, hrest => by
    have hothers := readItems_listTrees width others
      (fun a' ha' => h a' (List.mem_cons_of_mem a ha')) depth rest commands hrest
    rw [listTrees, listCommands, List.append_assoc, List.append_assoc]
    exact readItems_trees width a (h a List.mem_cons_self) depth _ _ hothers

end

end Action

/-! ### Lowering makes readable actions -/

theorem IsIdentifier.isSegmentName {name : String} (h : IsIdentifier name) :
    IsSegmentName name := by
  refine ⟨?_, h.isWordChar⟩
  obtain ⟨c, cs, hname, -⟩ := h
  rw [hname]
  exact List.cons_ne_nil c cs

/-- **The actions of a block without code can be read.** -/
theorem Action.Lowers.readable {slot free : Nat} {stmts : List Statement} {actions : List Action}
    (h : Lowers slot stmts actions free) (hwf : ∀ stmt ∈ stmts, stmt.WellFormed)
    (hscript : Statement.listHasScript stmts = false) : ∀ a ∈ actions, a.Readable := by
  induction h with
  | nil => exact List.forall_mem_nil _
  | menu hchoice _ ih =>
    have hrest := ih
      (fun s hs => hwf s (List.mem_cons_of_mem _ (List.dropWhile_subset _ hs)))
      (Statement.listHasScript_dropWhile _ (Bool.or_eq_false_iff.mp hscript).2)
    refine List.forall_mem_cons.mpr ⟨.menu _ ?_, hrest⟩
    exact List.forall_mem_cons.mpr ⟨hchoice, fun c hc => List.mem_takeWhile_imp hc⟩
  | divert target _ ih =>
    exact List.forall_mem_cons.mpr ⟨.leave target, ih (List.forall_mem_cons.mp hwf).2 hscript⟩
  | speech actor line _ ih =>
    obtain ⟨hstmt, hrest⟩ := List.forall_mem_cons.mp hwf
    cases hstmt with
    | speech hactor =>
      exact List.forall_mem_cons.mpr ⟨.say line hactor.isSegmentName, ih hrest hscript⟩
  | call name args _ ih =>
    exact List.forall_mem_cons.mpr ⟨.call name args, ih (List.forall_mem_cons.mp hwf).2 hscript⟩
  | script text _ _ => cases hscript
  | conditional conditions _ _ _ ih₁ ih₂ ih =>
    obtain ⟨hstmt, hrest⟩ := List.forall_mem_cons.mp hwf
    obtain ⟨hbranches, hscript⟩ := Bool.or_eq_false_iff.mp hscript
    obtain ⟨hscript₁, hscript₂⟩ := Bool.or_eq_false_iff.mp hbranches
    cases hstmt with
    | conditional hne _ hconsequent halternate =>
      exact List.forall_mem_cons.mpr
        ⟨.branch hne (ih₁ hconsequent hscript₁) (ih₂ halternate hscript₂), ih hrest hscript⟩

/-! ### Routines -/

/-- A routine whose lines can be read. -/
structure Routine.Readable (r : Routine) : Prop where
  name : ∀ c ∈ r.name.toList, IsWordChar c
  body : ∀ a ∈ r.body, a.Readable

namespace Routine

theorem readItems_exitTrees (width : Nat) (exit : Exit) :
    readItems (exitTrees width exit) = some (none, exitCommands exit) := by
  cases exit with
  | diverted => exact readItems_nil
  | next name => exact readItems_leaf rfl readItems_nil
  | stop => exact readItems_leaf rfl readItems_nil

/-- **The tree of a routine is read as its procedure.** -/
theorem readProcedure_tree (width : Nat) {r : Routine} (h : r.Readable) :
    readProcedure (r.tree width) = some r.procedure := by
  have hexit := readItems_exitTrees width r.exit
  have hbody := Action.readItems_listTrees width r.body h.body 1 _ _ hexit
  have hblock := Action.readItems_orPass h.body hexit hbody (n := 1 * width)
  have hne : Command.orPass (Action.listCommands r.body) ++ exitCommands r.exit ≠ [] := by
    simp [Action.orPass_ne_nil]
  rw [tree, readProcedure, if_pos ⟨rfl, rfl⟩, hblock, procedure]
  obtain ⟨command, commands, hcommands⟩ := List.exists_cons_of_ne_nil hne
  rw [hcommands]
  rfl

theorem laid_tree {width : Nat} (hwidth : 1 ≤ width) (r : Routine) : (r.tree width).Laid 0 := by
  have hbody := Action.laid_orPassTrees (Action.laid_listTrees hwidth r.body 1)
  have hexit : ∀ t ∈ exitTrees width r.exit, t.Laid (1 * width) := by
    cases r.exit with
    | diverted => nofun
    | next name => exact List.forall_mem_singleton.mpr (Tree.laid_leaf (by simp) _)
    | stop => exact List.forall_mem_singleton.mpr (Tree.laid_leaf (by simp) _)
  exact .node (by simp) (by omega) (List.forall_mem_append.mpr ⟨hbody, hexit⟩)

theorem laid_caseTrees {width : Nat} (hwidth : 1 ≤ width) (names : List String) :
    ∀ t ∈ caseTrees width names, t.Laid (3 * width) := by
  induction names with
  | nil => nofun
  | cons name rest ih =>
    rw [caseTrees, List.forall_mem_cons]
    refine ⟨.node (by simp) (Action.lt_indent hwidth 3) ?_, ih⟩
    exact List.forall_mem_singleton.mpr (Tree.laid_leaf (by simp) _)

theorem laid_dispatcherTree {width : Nat} (hwidth : 1 ≤ width) (names : List String) :
    (dispatcherTree width names).Laid 0 := by
  have hmatch : Tree.Laid (2 * width)
      (.node (2 * width) [.word "match", .word "state", .mark ':'] (caseTrees width names)) :=
    .node (by simp) (Action.lt_indent hwidth 2) (laid_caseTrees hwidth names)
  refine .node (by simp [mainAtoms]) (m := 1 * width) (by omega) ?_
  rw [List.forall_mem_cons, List.forall_mem_singleton]
  refine ⟨Tree.laid_leaf (by simp) _, .node (by simp) (Action.lt_indent hwidth 1) ?_⟩
  exact List.forall_mem_singleton.mpr hmatch

theorem logical_listLines (width : Nat) {routines : List Routine}
    (h : ∀ r ∈ routines, r.Readable) :
    Logical width (listLines routines)
      (routines.flatMap fun r => (r.tree width).lines ++ [(0, []), (0, [])]) := by
  induction routines with
  | nil => exact .nil width
  | cons r rest ih =>
    have hr := h r List.mem_cons_self
    exact (logical_lines hr.name hr.body).append
      (ih fun r' hr' => h r' (List.mem_cons_of_mem r hr'))

end Routine

/-! ### Programs -/

/-- A tree with blank lines behind it, without them. -/
theorem Tree.Laid.filter_lines {n : Nat} {t : Tree} (h : t.Laid n) :
    ((t.lines ++ [(0, []), (0, [])]).filter fun line => !line.2.isEmpty) = t.lines := by
  rw [List.filter_append, List.filter_eq_self.mpr (Tree.Laid.not_isEmpty t n h)]
  exact List.append_nil _

theorem filter_flatMap_lines {width : Nat} (hwidth : 1 ≤ width) (routines : List Routine) :
    ((routines.flatMap fun r => (r.tree width).lines ++ [(0, []), (0, [])]).filter
      fun line => !line.2.isEmpty) = Tree.listLines (routines.map (Routine.tree width)) := by
  induction routines with
  | nil => rfl
  | cons r rest ih =>
    rw [List.flatMap_cons, List.filter_append, (Routine.laid_tree hwidth r).filter_lines, ih]
    rfl

/-- **The text of a program is read as the procedures of its routines.** -/
theorem readProgram_routines {width : Nat} (hwidth : 1 ≤ width) {names : List String}
    (hnames : ∀ name ∈ names, ∀ c ∈ name.toList, IsWordChar c) {routines : List Routine}
    (h : ∀ r ∈ routines, r.Readable) :
    readProgram (Line.terminated width
      (Routine.dispatcherLines names ++ Routine.listLines routines)) =
      some (routines.map Routine.procedure) := by
  have hlogical := (Routine.logical_dispatcherLines width hnames).append
    (Routine.logical_listLines width h)
  have hmain := Routine.laid_dispatcherTree hwidth names
  have hlaid : ∀ t ∈ Routine.dispatcherTree width names :: routines.map (Routine.tree width),
      t.Laid 0 := by
    rw [List.forall_mem_cons, List.forall_mem_map]
    exact ⟨hmain, fun r _ => Routine.laid_tree hwidth r⟩
  have hprocedures : (routines.map (Routine.tree width)).mapM readProcedure =
      some (routines.map Routine.procedure) :=
    mapM_map_eq_some fun r hr => Routine.readProcedure_tree width (h r hr)
  rw [readProgram_terminated hlogical hlaid, Routine.dispatcherTree, readTrees, if_pos rfl,
    hprocedures]
  rw [List.filter_append, hmain.filter_lines, filter_flatMap_lines hwidth]
  rfl

end Dialogue
