import Dialogue.Proofs.Compilation
import Dialogue.Proofs.JsonLines
import Dialogue.Proofs.Menus
import Dialogue.Proofs.Occurrences

/-!
# What a program declares

`declaredNames` reads the names that a text declares off its lines: a line declares a variable if its
first word is `var`.  It looks at the text alone, so it finds whatever stands there, for whatever
reason.

Most of what a routine writes cannot be taken for a declaration.  Two things can.  Code of the host
platform is written as it is, so it may hold declarations of its own.  The names of segments and
speakers are written without quotes, so a line feed in one of them would start a line of its own.
No script that is read from a source has such a name (`WellFormedScript.unbroken`).

`Declares` sets the lines of code apart.  The others declare the variables of the menus, each once
and in order (`Routine.declares_lines`).
-/

namespace Dialogue

open Text

/-! ### Names that a text declares -/

/-- The variable that a line declares: the word behind `var`, if that is its first word. -/
def declaredName? (line : List Char) : Option String :=
  match line.dropWhile isBlank with
  | 'v' :: 'a' :: 'r' :: c :: rest =>
    if isBlank c then
      some (String.ofList ((rest.dropWhile isBlank).takeWhile Lexer.isWordChar))
    else none
  | _ => none

/-- The variables that the lines of a text declare, in order. -/
def declaredNames (text : String) : List String :=
  (text.toList.splitOn '\n').filterMap declaredName?

example : declaredNames "  var x = 1\nvary = 2\nf(var)\n\tvar  y_2: int\n" = ["x", "y_2"] := by
  decide +kernel

theorem declaredName?_space (line : List Char) : declaredName? (' ' :: line) = declaredName? line := by
  rw [declaredName?, declaredName?, List.dropWhile_cons_of_pos (by decide)]

/-- Neither a blank nor the first letter of `var`. -/
def isPlainStart (c : Char) : Bool :=
  c != 'v' && !isBlank c

/-- A line that starts with another character declares nothing. -/
theorem declaredName?_eq_none {line : List Char} (h : line.head?.all isPlainStart = true) :
    declaredName? line = none := by
  cases line with
  | nil => rfl
  | cons c cs =>
    obtain ⟨hv, hblank⟩ : c ≠ 'v' ∧ isBlank c = false := by
      simpa [isPlainStart] using h
    rw [declaredName?, List.dropWhile_cons_of_neg (by rw [hblank]; exact Bool.false_ne_true)]
    split
    · rename_i heq
      exact absurd (List.cons.inj heq).1 hv
    · rfl

/-- **A line feed separates what two texts declare.** -/
theorem declaredNames_feed (a b : String) :
    declaredNames (a ++ "\n" ++ b) = declaredNames a ++ declaredNames b := by
  have hchars : (a ++ "\n" ++ b).toList = a.toList ++ '\n' :: b.toList := by simp
  rw [declaredNames, hchars, List.splitOn_append_cons_self, List.filterMap_append]
  rfl

/-- Indentation declares nothing. -/
theorem declaredNames_spaces (n : Nat) (text : String) :
    declaredNames (String.ofList (List.replicate n ' ') ++ text) = declaredNames text := by
  rw [declaredNames, declaredNames, String.toList_append, String.toList_ofList]
  induction n with
  | zero => rfl
  | succ n ih =>
    -- a space goes to the front of the first line and leaves the others as they are
    rw [← ih, List.replicate_succ, List.cons_append, List.splitOn_cons_eq_if_modifyHead,
      if_neg (by decide)]
    cases (List.replicate n ' ' ++ text.toList).splitOn '\n' with
    | nil => rfl
    | cons first rest =>
      rw [List.modifyHead_cons, List.filterMap_cons, declaredName?_space, List.filterMap_cons]

/-- **What lines declare is read off their texts**, whatever the width of a level is. -/
theorem declaredNames_terminated (width : Nat) (ls : List Line) :
    declaredNames (Line.terminated width ls) = ls.flatMap fun l => declaredNames l.text := by
  induction ls with
  | nil => rfl
  | cons l ls ih =>
    rw [Line.terminated, List.map_cons, String.join_cons, declaredNames_feed, Line.render,
      declaredNames_spaces, List.flatMap_cons, ← ih]
    rfl

/-- A text of one line declares what its line declares. -/
theorem declaredNames_of_notMem {text : String} (h : '\n' ∉ text.toList) :
    declaredNames text = (declaredName? text.toList).toList := by
  rw [declaredNames, List.splitOn_eq_singleton h]
  cases hname : declaredName? text.toList with
  | none => exact List.filterMap_cons_none hname
  | some name => exact List.filterMap_cons_some hname

theorem newline_notMem_variableName (slot : Nat) : '\n' ∉ (Action.variableName slot).toList :=
  (isLineText_of_isWordChar (isSegmentName_variableName slot).2).1

/-- **The first line of a menu declares its variable.** -/
theorem declaredNames_menu (slot : Nat) :
    declaredNames ("var " ++ Action.variableName slot ++ " = yield menu([") =
      [Action.variableName slot] := by
  have hword : ∀ c ∈ (Action.variableName slot).toList, Lexer.isWordChar c = true :=
    fun c hc => Lexer.isWordChar_eq_true_iff.mpr ((isSegmentName_variableName slot).2 c hc)
  have hline : ("var " ++ Action.variableName slot ++ " = yield menu([").toList =
      'v' :: 'a' :: 'r' :: ' ' ::
        ((Action.variableName slot).toList ++ " = yield menu([".toList) := by
    simp
  have hblank : ((Action.variableName slot).toList ++ " = yield menu([".toList).dropWhile isBlank =
      (Action.variableName slot).toList ++ " = yield menu([".toList := by
    rw [Action.variableName, String.toList_append]
    exact List.dropWhile_cons_of_neg (by decide)
  have hstop : " = yield menu([".toList.takeWhile Lexer.isWordChar = [] := by decide
  have hname : declaredName? ("var " ++ Action.variableName slot ++ " = yield menu([").toList =
      some (Action.variableName slot) := by
    rw [hline, declaredName?, List.dropWhile_cons_of_neg (by decide)]
    show (if isBlank ' ' = true then _ else none) = _
    rw [if_pos (by decide), hblank, List.takeWhile_append_of_pos hword, hstop, List.append_nil,
      String.ofList_toList]
  rw [declaredNames_of_notMem (by simp [newline_notMem_variableName]), hname]
  rfl

/-! ### Plain lines -/

/-- A text of one line that starts with another character than a declaration. -/
structure Line.Plain (l : Line) : Prop where
  newline_notMem : '\n' ∉ l.text.toList
  start : l.text.toList.head?.all isPlainStart = true

theorem Line.Plain.declaredNames_eq_nil {l : Line} (h : l.Plain) : declaredNames l.text = [] := by
  rw [declaredNames_of_notMem h.newline_notMem, declaredName?_eq_none h.start]
  rfl

theorem Line.plain_text (depth : Nat) (text : String) (hfeed : '\n' ∉ text.toList := by decide)
    (hstart : text.toList.head?.all isPlainStart = true := by decide) :
    Line.Plain ⟨depth, text⟩ :=
  ⟨hfeed, hstart⟩

/-- Only the front of a line matters to how it starts. -/
theorem Line.plain_append (depth : Nat) {front rest : String} (hrest : '\n' ∉ rest.toList)
    (hfeed : '\n' ∉ front.toList := by decide)
    (hstart : front.toList.head?.any isPlainStart = true := by decide) :
    Line.Plain ⟨depth, front ++ rest⟩ := by
  refine ⟨by simp [hfeed, hrest], ?_⟩
  cases hchars : front.toList with
  | nil =>
    rw [hchars] at hstart
    cases hstart
  | cons c cs =>
    rw [hchars] at hstart
    rw [String.toList_append, hchars]
    exact hstart

/-- **No line of a record looks like a declaration.** -/
theorem Json.plain_layout (v : Json) (depth : Nat) : ∀ l ∈ v.layout depth "" ",", l.Plain := by
  intro l hl
  have hsolid : IsSolid l.text :=
    v.isSolid_of_mem_layout depth (by simp [IsVisible]) (by simp [IsVisible]) l hl
  refine ⟨hsolid.2.newline_notMem, ?_⟩
  obtain ⟨c, cs, hchars, hc⟩ := v.exists_cons_of_mem_layout depth "," l hl
  rw [hchars]
  show isPlainStart c = true
  simp only [isOpener, Bool.or_eq_true, beq_iff_eq] at hc
  rcases hc with ((((rfl | rfl) | rfl) | rfl) | rfl) | rfl <;> decide

/-! ### Names without quotes -/

/-- No speaker in a block, at whatever depth, has a line feed in their name. -/
def UnbrokenSpeakers (block : List Statement) : Prop :=
  ∀ actor line, Statement.Within (.speech actor line) block → '\n' ∉ actor.toList

namespace UnbrokenSpeakers

variable {block block' first second : List Statement} {conditions : List String}

theorem mono (h : UnbrokenSpeakers block') (hsub : block ⊆ block') : UnbrokenSpeakers block :=
  fun actor line hwithin => h actor line (hwithin.mono hsub)

theorem tail {stmt : Statement} (h : UnbrokenSpeakers (stmt :: block)) : UnbrokenSpeakers block :=
  h.mono (List.subset_cons_self stmt block)

theorem consequent (h : UnbrokenSpeakers (.conditional conditions first second :: block)) :
    UnbrokenSpeakers first :=
  fun actor line hwithin => h actor line (.consequent List.mem_cons_self hwithin)

theorem alternate (h : UnbrokenSpeakers (.conditional conditions first second :: block)) :
    UnbrokenSpeakers second :=
  fun actor line hwithin => h actor line (.alternate List.mem_cons_self hwithin)

end UnbrokenSpeakers

/-- The names that the routine of a segment writes without quotes have no line feed. -/
structure Segment.Unbroken (s : Segment) : Prop where
  name : '\n' ∉ s.name.toList
  speakers : UnbrokenSpeakers s.children

/-- **The names of a script that has a source are unbroken.** -/
theorem WellFormedScript.unbroken {segments : List Segment} (h : WellFormedScript segments) :
    ∀ s ∈ segments, s.Unbroken := by
  intro s hs
  refine ⟨(isLineText_of_isWordChar (h.isWordChar_of_mem hs)).1, fun actor line hwithin => ?_⟩
  have hactor : IsIdentifier actor := hwithin.proper (h.children s hs)
  exact (isLineText_of_isWordChar hactor.isWordChar).1

/-! ### Lines apart from code -/

/-- The third list is made of the other two, each of which keeps its order. -/
inductive Shuffle {α : Type} : List α → List α → List α → Prop
  | nil : Shuffle [] [] []
  | left {a : α} {as bs cs : List α} : Shuffle as bs cs → Shuffle (a :: as) bs (a :: cs)
  | right {b : α} {as bs cs : List α} : Shuffle as bs cs → Shuffle as (b :: bs) (b :: cs)

theorem Shuffle.append {α : Type} {as as' bs bs' cs cs' : List α} (h : Shuffle as bs cs)
    (h' : Shuffle as' bs' cs') : Shuffle (as ++ as') (bs ++ bs') (cs ++ cs') := by
  induction h with
  | nil => exact h'
  | left _ ih => exact .left ih
  | right _ ih => exact .right ih

theorem shuffle_nil {α : Type} (as : List α) : Shuffle as [] as := by
  induction as with
  | nil => exact .nil
  | cons a as ih => exact .left ih

/-- **What lines declare, code apart.**  Some of the lines are the code `codes`, and the others
declare `names`. -/
def Declares (ls : List Line) (names codes : List String) : Prop :=
  ∃ own scripts, Shuffle own scripts ls ∧ scripts.map Line.text = codes ∧
    (own.flatMap fun l => declaredNames l.text) = names

namespace Declares

variable {ls ls' : List Line} {names names' codes codes' : List String}

theorem append (h : Declares ls names codes) (h' : Declares ls' names' codes') :
    Declares (ls ++ ls') (names ++ names') (codes ++ codes') := by
  obtain ⟨own, scripts, hshuffle, rfl, rfl⟩ := h
  obtain ⟨own', scripts', hshuffle', rfl, rfl⟩ := h'
  exact ⟨own ++ own', scripts ++ scripts', hshuffle.append hshuffle', List.map_append,
    List.flatMap_append⟩

theorem code (depth : Nat) (text : String) : Declares [⟨depth, text⟩] [] [text] :=
  ⟨[], [⟨depth, text⟩], .right .nil, rfl, rfl⟩

theorem plain (h : ∀ l ∈ ls, l.Plain) : Declares ls [] [] := by
  refine ⟨ls, [], shuffle_nil ls, rfl, ?_⟩
  exact List.flatMap_eq_nil_iff.mpr fun l hl => (h l hl).declaredNames_eq_nil

theorem behind {l : Line} (h : Declares ls names codes) (hl : l.Plain) :
    Declares (l :: ls) names codes :=
  (plain (List.forall_mem_singleton.mpr hl)).append h

end Declares

/-! ### Code in a script -/

namespace Statement

mutual

/-- The code of the host platform inside a statement. -/
def codes : Statement → List String
  | script code => [code]
  | conditional _ consequent alternate => listCodes consequent ++ listCodes alternate
  | _ => []

/-- The code of the host platform in a block. -/
def listCodes : List Statement → List String
  | [] => []
  | stmt :: rest => codes stmt ++ listCodes rest

end

/-- There is no code in a run of choices. -/
theorem listCodes_dropWhile_isChoice (stmts : List Statement) :
    listCodes (stmts.dropWhile isChoice) = listCodes stmts := by
  induction stmts with
  | nil => rfl
  | cons stmt rest ih =>
    cases stmt with
    | choice | offer => exact ih
    | _ => rfl

theorem codes_of_isChoice {stmt : Statement} (h : stmt.isChoice = true) : stmt.codes = [] := by
  cases stmt with
  | choice | offer => rfl
  | _ => cases h

end Statement

/-- The code of the host platform in a segment. -/
def Segment.codes (s : Segment) : List String :=
  Statement.listCodes s.children

/-! ### Lines of routines -/

theorem newline_notMem_intercalate {between : String} (hbetween : '\n' ∉ between.toList)
    {texts : List String} (h : ∀ text ∈ texts, '\n' ∉ text.toList) :
    '\n' ∉ (between.intercalate texts).toList := by
  induction texts with
  | nil => simp
  | cons first rest ih =>
    rw [List.forall_mem_cons] at h
    cases rest with
    | nil =>
      rw [String.intercalate_singleton]
      exact h.1
    | cons second rest =>
      rw [String.intercalate_cons_cons, String.toList_append, String.toList_append,
        List.mem_append, List.mem_append, not_or, not_or]
      exact ⟨⟨h.1, hbetween⟩, ih h.2⟩

namespace Action

theorem newline_notMem_test (conditions : List String) : '\n' ∉ (test conditions).toList := by
  refine newline_notMem_intercalate (by decide) ?_
  rw [List.forall_mem_map]
  intro c _
  simp [newline_notMem_quote]

theorem plain_choiceLines (depth : Nat) (choices : List Statement) :
    ∀ l ∈ choiceLines depth choices, l.Plain := by
  induction choices with
  | nil => exact List.forall_mem_nil _
  | cons choice rest ih =>
    rw [choiceLines]
    exact List.forall_mem_append.mpr ⟨Json.plain_layout _ depth, ih⟩

/-- A menu declares its variable. -/
theorem declares_menuLines (depth slot : Nat) (choices : List Statement) :
    Declares (menuLines depth slot choices) [variableName slot] [] := by
  have hfirst : Declares [⟨depth, "var " ++ variableName slot ++ " = yield menu(["⟩]
      [variableName slot] [] := by
    refine ⟨_, [], shuffle_nil _, rfl, ?_⟩
    rw [List.flatMap_singleton, declaredNames_menu]
  have hname := newline_notMem_variableName slot
  have htest : Line.Plain ⟨depth, "if " ++ variableName slot ++ " != null:"⟩ := by
    rw [String.append_assoc]
    exact Line.plain_append depth (by simp [hname])
  have hreturn : Line.Plain ⟨depth + 1, "return " ++ variableName slot⟩ :=
    Line.plain_append (depth + 1) hname
  have hrest : ∀ l ∈ choiceLines (depth + 1) choices ++
      [⟨depth, "])"⟩, ⟨depth, "if " ++ variableName slot ++ " != null:"⟩,
       ⟨depth + 1, "return " ++ variableName slot⟩], l.Plain := by
    refine List.forall_mem_append.mpr ⟨plain_choiceLines _ _, ?_⟩
    exact List.forall_mem_cons.mpr ⟨Line.plain_text depth "])",
      List.forall_mem_cons.mpr ⟨htest, List.forall_mem_singleton.mpr hreturn⟩⟩
  exact hfirst.append (Declares.plain hrest)

theorem declares_orPass {ls : List Line} {names codes : List String}
    (h : Declares ls names codes) (depth : Nat) : Declares (orPass depth ls) names codes := by
  rw [orPass]
  split
  · rename_i hempty
    rw [List.isEmpty_iff.mp hempty] at h
    obtain ⟨own, scripts, hshuffle, rfl, rfl⟩ := h
    cases hshuffle
    exact Declares.plain (List.forall_mem_singleton.mpr (Line.plain_text depth "pass"))
  · exact h

/-- A conditional declares the variables of its branches. -/
theorem declares_branch {depth : Nat} {first second : List Action}
    {names names' codes codes' : List String}
    (hfirst : Declares (listLines (depth + 1) first) names codes)
    (hsecond : Declares (listLines (depth + 1) second) names' codes') (conditions : List String) :
    Declares ((branch conditions first second).lines depth) (names ++ names')
      (codes ++ codes') := by
  have htest : Line.Plain ⟨depth, "if " ++ test conditions ++ ":"⟩ := by
    rw [String.append_assoc]
    exact Line.plain_append depth (by simp [newline_notMem_test])
  rw [lines]
  refine Declares.behind ((declares_orPass hfirst (depth + 1)).append ?_) htest
  split
  · rename_i hempty
    rw [List.isEmpty_iff.mp hempty] at hsecond
    exact hsecond
  · exact hsecond.behind (Line.plain_text depth "else:")

/-- **The lines of a block declare the variables of its menus**, each once and in order, apart from
its code. -/
theorem Lowers.declares {slot free : Nat} {stmts : List Statement} {actions : List Action}
    (h : Lowers slot stmts actions free) (hspeakers : UnbrokenSpeakers stmts) (depth : Nat) :
    Declares (listLines depth actions)
      ((List.range' slot (Statement.listMenus stmts)).map variableName)
      (Statement.listCodes stmts) := by
  induction h generalizing depth with
  | nil => exact Declares.plain (List.forall_mem_nil _)
  | @menu _ _ stmt rest _ hchoice _ ih =>
    have hsub : rest.dropWhile Statement.isChoice ⊆ stmt :: rest :=
      fun s hs => List.mem_cons_of_mem stmt (List.dropWhile_subset _ hs)
    have hrest := ih (hspeakers.mono hsub) depth
    rw [Statement.listCodes_dropWhile_isChoice] at hrest
    rw [Statement.listMenus_of_isChoice hchoice, List.range'_succ, List.map_cons, listLines,
      Statement.listCodes, Statement.codes_of_isChoice hchoice]
    exact (declares_menuLines depth _ _).append hrest
  | divert target _ ih =>
    rw [Statement.listMenus_leaf rfl rfl, listLines, lines]
    refine (ih hspeakers.tail depth).behind ?_
    exact Line.plain_append depth (newline_notMem_quote target)
  | speech actor line _ ih =>
    have hactor : '\n' ∉ actor.toList := hspeakers actor line (.here List.mem_cons_self)
    rw [Statement.listMenus_leaf rfl rfl, listLines, lines]
    refine (ih hspeakers.tail depth).behind ?_
    simp only [String.append_assoc]
    exact Line.plain_append depth (by simp [hactor, newline_notMem_quote])
  | call name args _ ih =>
    have hargs : '\n' ∉ (",".intercalate (args.map quote)).toList :=
      newline_notMem_intercalate (by decide) (List.forall_mem_map.mpr fun a _ =>
        newline_notMem_quote a)
    rw [Statement.listMenus_leaf rfl rfl, listLines, lines]
    refine (ih hspeakers.tail depth).behind ?_
    simp only [String.append_assoc]
    refine Line.plain_append depth ?_
    simp only [String.toList_append, List.mem_append, not_or]
    exact ⟨newline_notMem_quote name, by decide, hargs, by decide⟩
  | script text _ ih =>
    rw [Statement.listMenus_leaf rfl rfl, listLines, lines]
    exact (Declares.code depth text).append (ih hspeakers.tail depth)
  | conditional conditions h₁ h₂ _ ih₁ ih₂ ih =>
    -- the slots of the second branch follow those of the first, and so on
    rw [Statement.listMenus_of_not_isChoice rfl, Statement.menus, ← List.range'_append_1,
      ← List.range'_append_1, ← Nat.add_assoc, ← h₁.free_eq, ← h₂.free_eq, List.map_append,
      List.map_append, listLines]
    exact (declares_branch (ih₁ hspeakers.consequent (depth + 1))
      (ih₂ hspeakers.alternate (depth + 1)) conditions).append (ih hspeakers.tail depth)

end Action

namespace Routine

/-- **A routine declares the variables of its menus**, each once and in order, apart from its code.
-/
theorem declares_lines {segment : Segment} {next : Option String} {slot free : Nat} {r : Routine}
    (h : ofSegment segment next slot = .ok (r, free)) (hunbroken : segment.Unbroken) :
    Declares r.lines ((List.range' slot segment.menus).map Action.variableName)
      segment.codes := by
  obtain ⟨body, hbody, rfl⟩ := ofSegment_eq_ok_iff.mp h
  have hheader : Line.Plain ⟨0, "func " ++ entryName segment.name ++ "() -> String:"⟩ := by
    rw [String.append_assoc]
    exact Line.plain_append 0 (by simp [entryName, hunbroken.name])
  have hexit : ∀ l ∈ exitLines (exitOf segment.children next), l.Plain := by
    cases exitOf segment.children next with
    | diverted => exact List.forall_mem_nil _
    | next name =>
      exact List.forall_mem_singleton.mpr (Line.plain_append 1 (newline_notMem_quote name))
    | stop => exact List.forall_mem_singleton.mpr (Line.plain_text 1 "return null")
  have hblank : Line.Plain .empty := Line.plain_text 0 ""
  have hend : ∀ l ∈ exitLines (exitOf segment.children next) ++ [.empty, .empty], l.Plain :=
    List.forall_mem_append.mpr ⟨hexit, List.forall_mem_cons.mpr
      ⟨hblank, List.forall_mem_singleton.mpr hblank⟩⟩
  have hlines := (Action.declares_orPass (hbody.declares hunbroken.speakers 1) 1).append
    (Declares.plain hend)
  rw [List.append_nil, List.append_nil] at hlines
  rw [lines, List.append_assoc]
  exact hlines.behind hheader

end Routine

end Dialogue
