import Dialogue.Proofs.Declarations

/-!
# Writing a program from front to back

The lines of a program know their depths.  A writer that goes through a program from front to back
does not: it keeps the current indentation, writes each line with it, and makes it wider in front of
a block and narrower behind it.  `Writer` is such a writer, and an `Instruction` is what it is told
to do.  It refuses to make an indentation narrower by more than there is.

The instructions of a program follow its structure, block by block.  `Writes` says that some
instructions write some lines at whatever depth the writer is, and that they leave it at that depth.
It holds of one line, it is kept when instructions follow each other or are put inside a block, and
so it holds of all actions (`Action.writes_instructions`).

`generate_eq_dispatcher_append_routines` is the account of a program as a whole.
-/

namespace Dialogue

/-! ### Writers -/

/-- What a writer has written, and the number of spaces in front of its next line. -/
structure Writer where
  text : String
  indent : Nat
deriving DecidableEq, Repr

/-- What a writer does next. -/
inductive Instruction where
  /-- Write a line, its own depth on top of the indentation. -/
  | write (l : Line)
  /-- End a line that has nothing on it. -/
  | blank
  | indent
  | unindent
deriving DecidableEq, Repr

namespace Writer

/-- One instruction.  An indentation that is too small cannot be made smaller. -/
def exec (width : Nat) (w : Writer) : Instruction → Option Writer
  | .write l =>
    some { w with text := w.text ++ (String.ofList (List.replicate w.indent ' ') ++
      l.render width ++ "\n") }
  | .blank => some { w with text := w.text ++ "\n" }
  | .indent => some { w with indent := w.indent + width }
  | .unindent => if width ≤ w.indent then some { w with indent := w.indent - width } else none

/-- Instructions one after the other, as long as none of them fails. -/
def run (width : Nat) : List Instruction → Writer → Option Writer
  | [], w => some w
  | i :: rest, w => (w.exec width i).bind (run width rest)

theorem run_append (width : Nat) (first second : List Instruction) (w : Writer) :
    run width (first ++ second) w = (run width first w).bind (run width second) := by
  induction first generalizing w with
  | nil => rfl
  | cons i first ih =>
    rw [List.cons_append, run, run]
    cases w.exec width i with
    | none => rfl
    | some w' => exact ih w'

end Writer

/-- Instructions around which the indentation is one level deeper. -/
def Instruction.nested (instructions : List Instruction) : List Instruction :=
  .indent :: (instructions ++ [.unindent])

/-! ### What instructions write -/

/-- A line `n` levels deeper. -/
def Line.deeper (n : Nat) (l : Line) : Line :=
  ⟨l.depth + n, l.text⟩

/-- **The instructions write the lines**, which are given for each depth, and leave the indentation
as it was. -/
def Writes (width : Nat) (instructions : List Instruction) (ls : Nat → List Line) : Prop :=
  ∀ (depth : Nat) (text : String), Writer.run width instructions ⟨text, depth * width⟩ =
    some ⟨text ++ Line.terminated width (ls depth), depth * width⟩

theorem Line.terminated_append (width : Nat) (a b : List Line) :
    Line.terminated width (a ++ b) = Line.terminated width a ++ Line.terminated width b := by
  rw [Line.terminated, List.map_append, String.join_append]
  rfl

namespace Writes

variable {width : Nat} {is is' : List Instruction} {ls ls' : Nat → List Line}

theorem nil (width : Nat) : Writes width [] fun _ => [] := by
  intro depth text
  simp [Writer.run, Line.terminated]

theorem congr (h : Writes width is ls) (heq : ∀ depth, ls depth = ls' depth) :
    Writes width is ls' := by
  intro depth text
  rw [← heq depth]
  exact h depth text

theorem append (h : Writes width is ls) (h' : Writes width is' ls') :
    Writes width (is ++ is') fun depth => ls depth ++ ls' depth := by
  intro depth text
  rw [Writer.run_append, h, Option.bind_some, h', Line.terminated_append, String.append_assoc]

/-- A line comes to stand as deep as the writer is. -/
theorem write (width : Nat) (l : Line) : Writes width [.write l] fun depth => [l.deeper depth] := by
  intro depth text
  have hspaces : String.ofList (List.replicate (depth * width) ' ') ++ l.render width =
      (l.deeper depth).render width := by
    apply String.toList_injective
    rw [String.toList_append, String.toList_ofList, Line.toList_render, Line.toList_render,
      ← List.append_assoc, List.replicate_append_replicate, ← Nat.add_mul, Nat.add_comm]
    rfl
  rw [Writer.run, Writer.exec, hspaces]
  simp [Writer.run, Line.terminated]

theorem lines (width : Nat) (ls : List Line) :
    Writes width (ls.map .write) fun depth => ls.map (Line.deeper depth) := by
  induction ls with
  | nil => exact nil width
  | cons l ls ih => exact (write width l).append ih

theorem behind (text : String) (h : Writes width is ls) :
    Writes width (.write ⟨0, text⟩ :: is) fun depth => ⟨depth, text⟩ :: ls depth := by
  have happend := (write width ⟨0, text⟩).append h
  simp only [Line.deeper, Nat.zero_add] at happend
  exact happend

theorem blank (width : Nat) : Writes width [.blank] fun _ => [.empty] := by
  intro depth text
  simp [Writer.run, Writer.exec, Line.terminated, Line.render, Line.empty]

/-- **A block is written one level deeper, and behind it the writer is where it was.** -/
theorem nested (h : Writes width is ls) :
    Writes width (Instruction.nested is) fun depth => ls (depth + 1) := by
  intro depth text
  have hindent : depth * width + width = (depth + 1) * width := (Nat.succ_mul depth width).symm
  have hle : width ≤ (depth + 1) * width := by rw [← hindent]; omega
  have hback : (depth + 1) * width - width = depth * width := by rw [← hindent]; omega
  rw [Instruction.nested, Writer.run, Writer.exec, Option.bind_some, hindent, Writer.run_append, h,
    Option.bind_some, Writer.run, Writer.exec, if_pos hle, hback]
  rfl

end Writes

/-! ### Records -/

namespace Json

mutual

/-- A value further down has its lines further down. -/
theorem layout_deeper (n : Nat) : (v : Json) → (depth : Nat) → (before after : String) →
    v.layout (depth + n) before after = (v.layout depth before after).map (Line.deeper n)
  | null, depth, before, after => by simp [layout, Line.deeper]
  | text value, depth, before, after => by simp [layout, Line.deeper]
  | list [], depth, before, after => by simp [layout, Line.deeper]
  | list (item :: items), depth, before, after => by
    have hitems := layoutItems_deeper n (item :: items) (depth + 1)
    rw [Nat.add_right_comm] at hitems
    simp [layout, Line.deeper, hitems]
  | record [], depth, before, after => by simp [layout, Line.deeper]
  | record (field :: fields), depth, before, after => by
    have hfields := layoutFields_deeper n (field :: fields) (depth + 1)
    rw [Nat.add_right_comm] at hfields
    simp [layout, Line.deeper, hfields]

theorem layoutItems_deeper (n : Nat) : (items : List Json) → (depth : Nat) →
    layoutItems (depth + n) items = (layoutItems depth items).map (Line.deeper n)
  | [], _ => rfl
  | item :: items, depth => by
    rw [layoutItems, layoutItems, List.map_append, layout_deeper n item,
      layoutItems_deeper n items]

theorem layoutFields_deeper (n : Nat) : (fields : List (String × Json)) → (depth : Nat) →
    layoutFields (depth + n) fields = (layoutFields depth fields).map (Line.deeper n)
  | [], _ => rfl
  | (key, value) :: fields, depth => by
    rw [layoutFields, layoutFields, List.map_append, layout_deeper n value,
      layoutFields_deeper n fields]

end

end Json

namespace Action

theorem choiceLines_deeper (depth : Nat) (choices : List Statement) :
    choiceLines depth choices = (choiceLines 0 choices).map (Line.deeper depth) := by
  induction choices with
  | nil => rfl
  | cons choice rest ih =>
    have hlayout := Json.layout_deeper depth choice.toJson 0 "" ","
    rw [Nat.zero_add] at hlayout
    rw [choiceLines, choiceLines, List.map_append, hlayout, ih]

/-! ### Actions -/

/-- The instructions of a block, or one for `pass` if it has no actions. -/
def orPassInstructions (actions : List Action) (is : List Instruction) : List Instruction :=
  if actions.isEmpty then [.write ⟨0, "pass"⟩] else is

mutual

/-- The instructions of an action. -/
def instructions : Action → List Instruction
  | menu slot choices =>
    .write ⟨0, "var " ++ variableName slot ++ " = yield menu(["⟩ ::
      (Instruction.nested ((choiceLines 0 choices).map .write) ++
        .write ⟨0, "])"⟩ :: .write ⟨0, "if " ++ variableName slot ++ " != null:"⟩ ::
          Instruction.nested [.write ⟨0, "return " ++ variableName slot⟩])
  | branch conditions consequent alternate =>
    .write ⟨0, "if " ++ test conditions ++ ":"⟩ ::
      (Instruction.nested (orPassInstructions consequent (listInstructions consequent)) ++
        if alternate.isEmpty then []
        else .write ⟨0, "else:"⟩ :: Instruction.nested (listInstructions alternate))
  | action => (lines 0 action).map .write

/-- The instructions of actions, one after the other. -/
def listInstructions : List Action → List Instruction
  | [] => []
  | action :: rest => instructions action ++ listInstructions rest

end

theorem writes_orPass {width : Nat} {actions : List Action} {is : List Instruction}
    (h : Writes width is (listLines · actions)) :
    Writes width (orPassInstructions actions is) fun depth =>
      orPass depth (listLines depth actions) := by
  cases actions with
  | nil => exact (Writes.nil width).behind "pass"
  | cons a rest =>
    refine h.congr fun depth => ?_
    have hlines : (listLines depth (a :: rest)).isEmpty = false := by simp [listLines, lines_ne_nil]
    rw [orPass, hlines]
    rfl

mutual

/-- **The instructions of an action write its lines**, and the writer comes back to its depth. -/
theorem writes_instructions (width : Nat) : (a : Action) →
    Writes width a.instructions (a.lines ·)
  | say _ _ | leave _ | call _ _ | code _ =>
    (Writes.lines width _).congr fun depth => by simp [lines, Line.deeper]
  | menu slot choices => by
    have hrecords : Writes width ((choiceLines 0 choices).map .write) (choiceLines · choices) :=
      (Writes.lines width _).congr fun depth => (choiceLines_deeper depth choices).symm
    have hreturn := ((Writes.nil width).behind ("return " ++ variableName slot)).nested
    have htest := (hreturn.behind ("if " ++ variableName slot ++ " != null:")).behind "])"
    exact (hrecords.nested.append htest).behind _
  | branch conditions consequent alternate => by
    have hyes := (writes_orPass (writes_listInstructions width consequent)).nested
    have hno := (writes_listInstructions width alternate).nested.behind "else:"
    cases alternate with
    | nil => exact (hyes.append (Writes.nil width)).behind _
    | cons a rest => exact (hyes.append hno).behind _

theorem writes_listInstructions (width : Nat) : (actions : List Action) →
    Writes width (listInstructions actions) (listLines · actions)
  | [] => Writes.nil width
  | a :: rest => (writes_instructions width a).append (writes_listInstructions width rest)

end

end Action

/-! ### Routines and the dispatcher -/

namespace Routine

/-- The instructions of a routine. -/
def instructions (r : Routine) : List Instruction :=
  .write ⟨0, "func " ++ entryName r.name ++ "() -> String:"⟩ ::
    (Instruction.nested
        (Action.orPassInstructions r.body (Action.listInstructions r.body) ++
          (exitLines r.exit).map fun l => .write ⟨0, l.text⟩) ++
      [.blank, .blank])

/-- The instructions of the cases of the dispatcher. -/
def caseInstructions : List String → List Instruction
  | [] => []
  | name :: rest =>
    .write ⟨0, Text.quote name ++ ":"⟩ ::
      (Instruction.nested [.write ⟨0, "state = yield " ++ entryName name ++ "()"⟩] ++
        caseInstructions rest)

/-- The instructions of the dispatcher. -/
def dispatcherInstructions (names : List String) : List Instruction :=
  .write ⟨0, "func main(init_state):"⟩ ::
    (Instruction.nested
        (.write ⟨0, "var state = init_state"⟩ :: .write ⟨0, "while state != null:"⟩ ::
          Instruction.nested
            (.write ⟨0, "match state:"⟩ :: Instruction.nested (caseInstructions names))) ++
      [.blank, .blank])

theorem writes_exit (width : Nat) (exit : Exit) :
    Writes width ((exitLines exit).map fun l => .write ⟨0, l.text⟩) fun depth =>
      (exitLines exit).map fun l => ⟨depth, l.text⟩ := by
  cases exit with
  | diverted => exact Writes.nil width
  | next name => exact (Writes.nil width).behind _
  | stop => exact (Writes.nil width).behind _

theorem writes_blanks (width : Nat) : Writes width [.blank, .blank] fun _ => [.empty, .empty] :=
  (Writes.blank width).append (Writes.blank width)

/-- **The instructions of a routine write its lines**, and the writer comes back to the margin. -/
theorem run_instructions (width : Nat) (r : Routine) (text : String) :
    Writer.run width r.instructions ⟨text, 0⟩ =
      some ⟨text ++ Line.terminated width r.lines, 0⟩ := by
  have hbody := Action.writes_orPass (Action.writes_listInstructions width r.body)
  have hroutine := (((hbody.append (writes_exit width r.exit)).nested.append
    (writes_blanks width)).behind ("func " ++ entryName r.name ++ "() -> String:")) 0 text
  have hexit : (exitLines r.exit).map (fun l => ⟨1, l.text⟩) = exitLines r.exit := by
    cases r.exit <;> rfl
  simp only [Nat.zero_mul, Nat.zero_add, hexit] at hroutine
  exact hroutine

theorem writes_caseInstructions (width : Nat) (names : List String) :
    Writes width (caseInstructions names) fun depth => names.flatMap fun name =>
      [⟨depth, Text.quote name ++ ":"⟩,
        ⟨depth + 1, "state = yield " ++ entryName name ++ "()"⟩] := by
  induction names with
  | nil => exact Writes.nil width
  | cons name rest ih =>
    have hcase := ((Writes.nil width).behind ("state = yield " ++ entryName name ++ "()")).nested
    exact (hcase.append ih).behind _

theorem caseLines_eq_flatMap (names : List String) :
    caseLines names = names.flatMap fun name =>
      [⟨3, Text.quote name ++ ":"⟩, ⟨4, "state = yield " ++ entryName name ++ "()"⟩] := by
  induction names with
  | nil => rfl
  | cons name rest ih => rw [caseLines, ih, List.flatMap_cons]; rfl

/-- **The instructions of the dispatcher write its lines**, and the writer comes back to the margin.
-/
theorem run_dispatcherInstructions (width : Nat) (names : List String) (text : String) :
    Writer.run width (dispatcherInstructions names) ⟨text, 0⟩ =
      some ⟨text ++ Line.terminated width (dispatcherLines names), 0⟩ := by
  have hmatch := (writes_caseInstructions width names).nested.behind "match state:"
  have hloop := (hmatch.nested.behind "while state != null:").behind "var state = init_state"
  have hmain := ((hloop.nested.append (writes_blanks width)).behind "func main(init_state):") 0 text
  rw [Nat.zero_mul] at hmain
  rw [dispatcherLines, caseLines_eq_flatMap]
  exact hmain

end Routine

/-! ### Programs -/

/-- The code of the dispatcher for segments with the given names. -/
def dispatcherText (names : List String) (width : Nat) : String :=
  Line.terminated width (Routine.dispatcherLines names)

/-- The code of the routine of a segment: `next` is the name of the segment that follows it, and its
variables are numbered from `slot` on. -/
def routineText (segment : Segment) (next : Option String) (slot width : Nat) : String :=
  match Routine.ofSegment segment next slot with
  | .ok (r, _) => Line.terminated width r.lines
  | .error _ => ""

theorem exists_routine (segment : Segment) (next : Option String) (slot width : Nat) :
    ∃ r, Routine.ofSegment segment next slot = .ok (r, slot + segment.menus) ∧
      routineText segment next slot width = Line.terminated width r.lines := by
  obtain ⟨body, free, hbody⟩ := Action.exists_lowers segment.children slot
  have hfree : free = slot + segment.menus := hbody.free_eq
  subst hfree
  have hsegment : Routine.ofSegment segment next slot = .ok (_, slot + segment.menus) :=
    Routine.ofSegment_eq_ok_iff.mpr ⟨body, hbody, rfl⟩
  exact ⟨_, hsegment, by rw [routineText, hsegment]⟩

/-- The routines of segments, each numbered from where the one before it stops. -/
theorem exists_ofSegments_terminated (segments : List Segment) (slot width : Nat) :
    ∃ routines, Routine.ofSegments slot segments = .ok routines ∧
      Line.terminated width (Routine.listLines routines) =
        String.join (segments.mapIdx fun i segment => routineText segment
          (segments[i + 1]?.map (·.name)) (slot + Segment.listMenus (segments.take i)) width) := by
  induction segments generalizing slot with
  | nil => exact ⟨[], rfl, rfl⟩
  | cons segment rest ih =>
    obtain ⟨r, hsegment, hr⟩ :=
      exists_routine segment (rest.head?.map (·.name)) slot width
    obtain ⟨routines, hrest, hroutines⟩ := ih (slot + segment.menus)
    refine ⟨r :: routines, ?_, ?_⟩
    · rw [Routine.ofSegments, hsegment]
      simp only [hrest]
    · have htake : ∀ i, slot + Segment.listMenus ((segment :: rest).take (i + 1)) =
          slot + segment.menus + Segment.listMenus (rest.take i) :=
        fun i => (Nat.add_assoc _ _ _).symm
      rw [Routine.listLines, Line.terminated_append, hroutines, List.mapIdx_cons, String.join_cons,
        ← hr, List.head?_eq_getElem?]
      simp only [htake, List.getElem?_cons_succ, List.take_zero, Segment.listMenus, Nat.add_zero]

/-- The program is the text of its dispatcher, then those of its routines. -/
theorem generate_eq_append_join (width : Nat) (segments : List Segment) :
    generate width segments = .ok (dispatcherText (segments.map (·.name)) width ++
      String.join (segments.mapIdx fun i segment => routineText segment
        (segments[i + 1]?.map (·.name)) (Segment.listMenus (segments.take i)) width)) := by
  obtain ⟨routines, hroutines, htext⟩ := exists_ofSegments_terminated segments 0 width
  simp only [Nat.zero_add] at htext
  rw [generate, programLines, hroutines]
  simp only [Line.terminated_append, htext]
  rfl

/-- **A program is its dispatcher and the routines of its segments.**

The dispatcher depends on the names alone.  A routine depends on its segment, the name of the next
segment, the number of menus in front of it, and the width of a level.  A writer that keeps track of
the indentation writes the dispatcher and every routine from the margin back to the margin, and
never goes back further than it went in.

The variables of the menus of a segment have consecutive numbers and different names.  Some lines of
its routine are the code of the segment, as it is.  The others declare the variables of the menus,
each once and in the order of the text, provided that no name which is written without quotes has a
line feed in it; in a script that is read from a source none has. -/
theorem generate_eq_dispatcher_append_routines (width : Nat) (segments : List Segment) :
    generate width segments = .ok (dispatcherText (segments.map (·.name)) width ++
        String.join (segments.mapIdx fun i segment => routineText segment
          (segments[i + 1]?.map (·.name)) (Segment.listMenus (segments.take i)) width)) ∧
      (∀ text, Writer.run width (Routine.dispatcherInstructions (segments.map (·.name)))
          ⟨text, 0⟩ = some ⟨text ++ dispatcherText (segments.map (·.name)) width, 0⟩) ∧
      (∀ (segment : Segment) (next : Option String) (slot : Nat), ∃ r,
        Routine.ofSegment segment next slot = .ok (r, slot + segment.menus) ∧
        routineText segment next slot width = Line.terminated width r.lines ∧
        (∀ text, Writer.run width r.instructions ⟨text, 0⟩ =
          some ⟨text ++ routineText segment next slot width, 0⟩) ∧
        ((List.range' slot segment.menus).map Action.variableName).Nodup ∧
        (segment.Unbroken → ∃ own scripts, Shuffle own scripts r.lines ∧
          scripts.map Line.text = segment.codes ∧
          declaredNames (Line.terminated width own) =
            (List.range' slot segment.menus).map Action.variableName)) ∧
      ∀ name source, readScript name source = .ok segments → ∀ s ∈ segments, s.Unbroken := by
  refine ⟨generate_eq_append_join width segments, Routine.run_dispatcherInstructions width _,
    fun segment next slot => ?_, fun name source hread =>
      (wellFormedScript_of_readScript hread).unbroken⟩
  obtain ⟨r, hsegment, hr⟩ := exists_routine segment next slot width
  refine ⟨r, hsegment, hr, fun text => ?_, Action.nodup_variableNames slot segment.menus,
    fun hunbroken => ?_⟩
  · rw [hr]
    exact Routine.run_instructions width r text
  · obtain ⟨own, scripts, hshuffle, hscripts, hnames⟩ := Routine.declares_lines hsegment hunbroken
    exact ⟨own, scripts, hshuffle, hscripts, by rw [declaredNames_terminated, hnames]⟩

/-! ### Declarations that are not for menus -/

/-- A segment with code that declares variables, one of them like that of the menu behind it. -/
def scriptedScene : Segment :=
  ⟨"a", [.script "var __genvar_0 = 1", .script "var x = 2", .choice "x" [] none]⟩

theorem readScript_scriptedScene :
    readScript "scene" (printScript [scriptedScene]) = .ok [scriptedScene] := by
  have hname : IsSegmentName "a" := by decide
  have hfirst : IsCode "var __genvar_0 = 1" := by decide
  have hsecond : IsCode "var x = 2" := by decide
  have hwf : WellFormedScript [scriptedScene] := by
    refine ⟨?_, List.forall_mem_nil _, List.forall_mem_singleton.mpr ?_⟩
    · rintro _ ⟨⟩
      exact .inl hname
    · exact List.forall_mem_cons.mpr ⟨.script hfirst, List.forall_mem_cons.mpr
        ⟨.script hsecond, List.forall_mem_singleton.mpr (.choice (by simp) (by simp))⟩⟩
  exact readScript_eq_ok_iff.mpr hwf.exists_tokens

theorem exists_declared_scriptedScene :
    readScript "scene" (printScript [scriptedScene]) = .ok [scriptedScene] ∧
      scriptedScene.Unbroken ∧
      ∃ r, Routine.ofSegment scriptedScene none 0 = .ok (r, 1) ∧
        ∃ own scripts, Shuffle own scripts r.lines ∧
          scripts.map Line.text = ["var __genvar_0 = 1", "var x = 2"] ∧
          declaredNames (Line.terminated 4 own) = ["__genvar_0"] := by
  obtain ⟨-, -, hroutines, hread⟩ := generate_eq_dispatcher_append_routines 4 [scriptedScene]
  have hunbroken := hread _ _ readScript_scriptedScene scriptedScene List.mem_cons_self
  obtain ⟨r, hsegment, -, -, -, hdeclared⟩ := hroutines scriptedScene none 0
  exact ⟨readScript_scriptedScene, hunbroken, r, hsegment, hdeclared hunbroken⟩

/-- A segment with a speaker whose name goes on, on a line of its own, like a declaration. -/
def brokenScene : Segment :=
  ⟨"a", [.speech "ann\nvar y" "hi"]⟩

theorem generate_singleton (width : Nat) (segment : Segment) :
    generate width [segment] =
      .ok (dispatcherText [segment.name] width ++ routineText segment none 0 width) := by
  rw [generate_eq_append_join]
  simp [Segment.listMenus]

theorem declaredNames_routineText {segment : Segment} {next : Option String} {slot free : Nat}
    {body : List Action} (h : Action.Lowers slot segment.children body free) (width : Nat) :
    declaredNames (routineText segment next slot width) =
      (Routine.lines ⟨segment.name, body, Routine.exitOf segment.children next⟩).flatMap fun l =>
        declaredNames l.text := by
  have hsegment : Routine.ofSegment segment next slot = .ok (_, free) :=
    Routine.ofSegment_eq_ok_iff.mpr ⟨body, h, rfl⟩
  rw [routineText, hsegment, declaredNames_terminated]

/-- **Code and broken names may declare more than the variables of menus.** -/
theorem declaredNames_scriptedScene_ne :
    readScript "scene" (printScript [scriptedScene]) = .ok [scriptedScene] ∧
      generate 4 [scriptedScene] =
        .ok (dispatcherText ["a"] 4 ++ routineText scriptedScene none 0 4) ∧
      declaredNames (routineText scriptedScene none 0 4) = ["__genvar_0", "x", "__genvar_0"] ∧
      declaredNames (routineText scriptedScene none 0 4) ≠
        (List.range' 0 scriptedScene.menus).map Action.variableName ∧
      generate 4 [brokenScene] =
        .ok (dispatcherText ["a"] 4 ++ routineText brokenScene none 0 4) ∧
      declaredNames (routineText brokenScene none 0 4) = ["y"] ∧
      declaredNames (routineText brokenScene none 0 4) ≠
        (List.range' 0 brokenScene.menus).map Action.variableName := by
  have hscripted : declaredNames (routineText scriptedScene none 0 4) =
      ["__genvar_0", "x", "__genvar_0"] := by
    rw [declaredNames_routineText (.script _ (.script _ (.menu rfl .nil)))]
    decide +kernel
  have hbroken : declaredNames (routineText brokenScene none 0 4) = ["y"] := by
    rw [declaredNames_routineText (.speech _ _ .nil)]
    decide +kernel
  refine ⟨readScript_scriptedScene, generate_singleton 4 scriptedScene, hscripted, ?_,
    generate_singleton 4 brokenScene, hbroken, ?_⟩
  · rw [hscripted]
    decide
  · rw [hbroken]
    decide

end Dialogue
