import Dialogue.Proofs.ChoiceRuns
import Dialogue.Proofs.JsonLines
import Dialogue.Proofs.ScriptJson
import Dialogue.Proofs.SourceLines
import Mathlib.Data.List.ModifyLast

/-!
# Menus carry their choices intact

Between the brackets of a menu stands the JSON text of its choices, one after the other and each
with a comma behind it, moved in by the indentation of the code around it.

That a text can be moved in line by line rests on where its lines end.  In JSON text they end where
the layout ends them and nowhere else: whatever a choice says, no control character of it is written
as it is (`Json.isSolid_of_mem_layout`).  So cutting the text into lines gives the lines of the layout
(`Json.lines_pretty`), and a comma behind the last of them is a comma behind the text
(`Json.joined_layout_comma`).
-/

namespace Dialogue

/-! ### Cutting JSON text into lines -/

namespace Json

/-- What stands behind a value stands on its last line. -/
theorem exists_layout_concat (v : Json) (depth : Nat) (before : String) :
    ∃ front depth' text, ∀ after, v.layout depth before after = front ++ [⟨depth', text ++ after⟩] := by
  cases v with
  | null => exact ⟨[], depth, before ++ "null", fun _ => rfl⟩
  | text value => exact ⟨[], depth, before ++ Text.quote value, fun _ => rfl⟩
  | list items =>
    cases items with
    | nil => exact ⟨[], depth, before ++ "[]", fun _ => rfl⟩
    | cons item items => exact ⟨_ :: _, depth, "]", fun _ => rfl⟩
  | record fields =>
    cases fields with
    | nil => exact ⟨[], depth, before ++ "\x7b\x7d", fun _ => rfl⟩
    | cons field fields => exact ⟨_ :: _, depth, "\x7d", fun _ => rfl⟩

end Json

theorem Line.isSolid_render {l : Line} (h : IsSolid l.text) (width : Nat) :
    IsSolid (l.render width) := by
  have hspaces : IsVisible (String.ofList (List.replicate (l.depth * width) ' ')) := by
    intro c hc
    rw [String.toList_ofList] at hc
    rw [List.eq_of_mem_replicate hc]
    decide
  refine ⟨fun hempty => ?_, hspaces.append h.2⟩
  exact h.1 (String.append_eq_empty_iff.mp hempty).2

theorem IsVisible.isLineText {text : String} (h : IsVisible text) : IsLineText text.toList := by
  refine ⟨h.newline_notMem, fun c hc hreturn => ?_⟩
  have hle := h c (List.mem_of_getLast? hc)
  rw [hreturn] at hle
  exact absurd hle (by decide)

/-- **Texts without line ends are cut apart where they were joined.** -/
theorem lines_intercalate {texts : List String} (h : ∀ text ∈ texts, IsSolid text) :
    Text.lines ("\n".intercalate texts).toList = texts.map String.toList := by
  induction texts with
  | nil => rfl
  | cons first rest ih =>
    rw [List.forall_mem_cons] at h
    obtain ⟨⟨hne, hvisible⟩, hrest⟩ := h
    cases rest with
    | nil =>
      rw [String.intercalate_singleton]
      exact Text.lines_eq_singleton hvisible.newline_notMem (by simpa using hne)
    | cons second rest =>
      have hcut := Text.lines_line hvisible.isLineText ("\n".intercalate (second :: rest)).toList
      rw [ih hrest] at hcut
      rw [String.intercalate_cons_cons, String.toList_append, String.toList_append,
        List.append_assoc]
      exact hcut

namespace Json

theorem isSolid_of_mem_render (width : Nat) (v : Json) {after : String} (hafter : IsVisible after) :
    ∀ text ∈ (v.layout 0 "" after).map (Line.render width), IsSolid text := by
  rw [List.forall_mem_map]
  intro l hl
  apply Line.isSolid_render
  exact v.isSolid_of_mem_layout 0 (by simp [IsVisible]) hafter l hl

/-- **JSON text is cut into the lines of its layout.** -/
theorem lines_pretty (width : Nat) (v : Json) :
    Text.lines (v.pretty width).toList =
      (v.layout 0 "" "").map fun l => (l.render width).toList := by
  have hempty : IsVisible "" := by simp [IsVisible]
  have hcut := lines_intercalate (v.isSolid_of_mem_render width hempty)
  rw [List.map_map] at hcut
  exact hcut

/-- Cutting JSON text into lines loses nothing. -/
theorem intercalate_lines_pretty (width : Nat) (v : Json) :
    ['\n'].intercalate (Text.lines (v.pretty width).toList) = (v.pretty width).toList := by
  rw [lines_pretty, pretty, toList_joined]

/-- A comma behind the last line is a comma behind the text. -/
theorem joined_layout_comma (width : Nat) (v : Json) :
    Line.joined width (v.layout 0 "" ",") = v.pretty width ++ "," := by
  obtain ⟨front, depth, text, hlayout⟩ := v.exists_layout_concat 0 ""
  have hlast : Line.render width ⟨depth, text ++ ","⟩ =
      Line.render width ⟨depth, text ++ ""⟩ ++ "," := by
    simp [Line.render, String.append_assoc]
  rw [pretty, hlayout, hlayout, Line.joined, Line.joined, List.map_append, List.map_append,
    List.map_singleton, List.map_singleton, hlast]
  cases front with
  | nil => simp
  | cons l front =>
    rw [String.intercalate_append_of_ne_nil (by simp) (by simp),
      String.intercalate_append_of_ne_nil (by simp) (by simp), String.intercalate_singleton,
      String.intercalate_singleton]
    simp only [String.append_assoc]

theorem toList_layout_comma (width : Nat) (v : Json) :
    ((v.layout 0 "" ",").map fun l => (l.render width).toList) =
      (Text.lines (v.pretty width).toList).modifyLast (· ++ [',']) := by
  obtain ⟨front, depth, text, hlayout⟩ := v.exists_layout_concat 0 ""
  rw [lines_pretty, hlayout, hlayout, List.map_append, List.map_append, List.map_singleton,
    List.map_singleton, List.modifyLast_concat]
  simp [Line.toList_render]

end Json

/-! ### Records of a menu -/

namespace Action

/-- The lines between the brackets of a menu, without the indentation of the code around it. -/
def recordLines (width : Nat) (run : List Statement) : List String :=
  (choiceLines 0 run).map (Line.render width)

theorem recordLines_cons (width : Nat) (c : Statement) (run : List Statement) :
    recordLines width (c :: run) =
      (c.toJson.layout 0 "" ",").map (Line.render width) ++ recordLines width run := by
  rw [recordLines, choiceLines, List.map_append, recordLines]

theorem isVisible_of_mem_recordLines (width : Nat) (run : List Statement) :
    ∀ text ∈ recordLines width run, IsVisible text := by
  have hcomma : IsVisible "," := by simp [IsVisible]
  induction run with
  | nil => exact List.forall_mem_nil _
  | cons c run ih =>
    rw [recordLines_cons]
    refine List.forall_mem_append.mpr ⟨fun text htext => ?_, ih⟩
    exact (c.toJson.isSolid_of_mem_render width hcomma text htext).2

/-- **Together the lines are the records of the choices**, each with a comma behind it. -/
theorem intercalate_recordLines (width : Nat) (run : List Statement) :
    "\n".intercalate (recordLines width run) =
      "\n".intercalate (run.map fun c => c.toJson.pretty width ++ ",") := by
  induction run with
  | nil => rfl
  | cons c run ih =>
    have hfirst : "\n".intercalate ((c.toJson.layout 0 "" ",").map (Line.render width)) =
        c.toJson.pretty width ++ "," := c.toJson.joined_layout_comma width
    rw [recordLines_cons, List.map_cons]
    cases run with
    | nil =>
      rw [List.map_nil, String.intercalate_singleton, ← hfirst]
      exact congrArg _ (List.append_nil _)
    | cons c' run =>
      have hne : (c.toJson.layout 0 "" ",").map (Line.render width) ≠ [] := by
        simpa using c.toJson.layout_ne_nil 0 "" ","
      have hne' : recordLines width (c' :: run) ≠ [] := by
        rw [recordLines_cons]
        simp [c'.toJson.layout_ne_nil 0 "" ","]
      rw [String.intercalate_append_of_ne_nil hne hne', hfirst, ih,
        String.intercalate_cons_of_ne_nil (by simp)]

/-- **The lines are what the texts of the choices are cut into**, a comma behind the last line of
each. -/
theorem toList_recordLines (width : Nat) (run : List Statement) :
    (recordLines width run).map String.toList = run.flatMap fun c =>
      (Text.lines (c.toJson.pretty width).toList).modifyLast (· ++ [',']) := by
  induction run with
  | nil => rfl
  | cons c run ih =>
    rw [recordLines_cons, List.map_append, List.map_map, ih, List.flatMap_cons,
      ← Json.toList_layout_comma]
    rfl

end Action

theorem Line.render_deeper (width n : Nat) (l : Line) :
    (l.deeper n).render width = Line.render width ⟨n, l.render width⟩ := by
  rw [← String.toList_inj, Line.toList_render, Line.toList_render, Line.toList_render,
    ← List.append_assoc, List.replicate_append_replicate, Line.deeper, Nat.add_mul, Nat.add_comm]

/-- Lines that are rendered alike make the same text. -/
theorem Line.terminated_congr {width : Nat} {ls ls' : List Line}
    (h : ls.map (Line.render width) = ls'.map (Line.render width)) :
    Line.terminated width ls = Line.terminated width ls' := by
  have hends (ls : List Line) : (ls.map fun l => l.render width ++ "\n") =
      (ls.map (Line.render width)).map (· ++ "\n") := by
    rw [List.map_map]
    rfl
  rw [Line.terminated, Line.terminated, hends, hends, h]

theorem Action.render_choiceLines (width depth : Nat) (run : List Statement) :
    (choiceLines depth run).map (Line.render width) =
      ((recordLines width run).map (Line.mk depth)).map (Line.render width) := by
  rw [choiceLines_deeper, recordLines, List.map_map, List.map_map, List.map_map]
  exact List.map_congr_left fun l _ => Line.render_deeper width depth l

/-- **Menus carry their choices intact.**  Every script has a program, and for every maximal run of
choices, in whatever block, a menu stands in it.  The lines between the brackets of the menu, without
the indentation of the code around them, are together the records of the choices with a comma behind
each.  They are what these texts are cut into, and the cut neither drops nor adds anything, since no
line end or other control character of a choice gets into its record as it is. -/
theorem exists_generate_menus (width : Nat) (segments : List Segment) :
    ∃ program, generate width segments = .ok program ∧
      ∀ {depth slot : Nat} {run : List Statement}, Segment.RunAt segments depth slot run →
        ∃ front records back,
          program = Line.terminated width (front ++
            ⟨depth, "var " ++ Action.variableName slot ++ " = yield menu(["⟩ ::
              (records.map (Line.mk (depth + 1)) ++ ⟨depth, "])"⟩ :: back)) ∧
          "\n".intercalate records =
            "\n".intercalate (run.map fun c => c.toJson.pretty width ++ ",") ∧
          (records.map String.toList = run.flatMap fun c =>
            (Text.lines (c.toJson.pretty width).toList).modifyLast (· ++ [','])) ∧
          (∀ c ∈ run, ['\n'].intercalate (Text.lines (c.toJson.pretty width).toList) =
            (c.toJson.pretty width).toList) ∧
          ∀ record ∈ records, IsVisible record := by
  obtain ⟨ls, hgenerate, hmenus⟩ := exists_generate_eq width segments
  refine ⟨_, hgenerate, fun {depth slot run} hrun => ?_⟩
  obtain ⟨front, back, rfl⟩ := hmenus hrun
  refine ⟨front, Action.recordLines width run,
    ⟨depth, "if " ++ Action.variableName slot ++ " != null:"⟩ ::
      ⟨depth + 1, "return " ++ Action.variableName slot⟩ :: back, Line.terminated_congr ?_,
    Action.intercalate_recordLines width run, Action.toList_recordLines width run,
    fun c _ => c.toJson.intercalate_lines_pretty width,
    Action.isVisible_of_mem_recordLines width run⟩
  -- the two sides differ only in how the lines of the records are indented
  have hrecords := Action.render_choiceLines width (depth + 1) run
  rw [Action.menuLines, List.append_assoc, List.cons_append, List.append_assoc]
  simp only [List.map_append, List.map_cons, hrecords]
  rfl

/-- Choices whose texts are full of line ends. -/
def noisyChoices : List Statement :=
  [.choice "one\r\ntwo" ["a\nb"] none,
    .offer (.split "\u2028" none (some (.line "\r" (some "Attic"))))]

/-- They stand in the second branch of a conditional, behind the menu of another choice. -/
def noisyScene : List Segment :=
  [⟨"Hall", [.choice "Go." [] none,
    .conditional ["late"] [.divert "Attic"] (.speech "Ann" "Hm." :: noisyChoices)]⟩]

/-- Without any indentation the menu still holds the records as they are. -/
theorem exists_menu_noisyScene :
    Segment.RunAt noisyScene 2 1 noisyChoices ∧
      ∃ program front records back, generate 0 noisyScene = .ok program ∧
        program = Line.terminated 0 (front ++
          ⟨2, "var " ++ Action.variableName 1 ++ " = yield menu(["⟩ ::
            (records.map (Line.mk 3) ++ ⟨2, "])"⟩ :: back)) ∧
        "\n".intercalate records =
          "\n".intercalate (noisyChoices.map fun c => c.toJson.pretty 0 ++ ",") := by
  have hspeech : ∀ stmt ∈ [Statement.speech "Ann" "Hm."].getLast?, stmt.isChoice = false := by
    rintro _ ⟨⟩
    rfl
  have hchoices : ∀ c ∈ noisyChoices, c.isChoice = true := by
    simp [noisyChoices, Statement.isChoice]
  have hhere : Statement.RunAt (.speech "Ann" "Hm." :: noisyChoices) 0 0 noisyChoices :=
    @Statement.RunAt.here [_] noisyChoices [] (by simp [noisyChoices]) hchoices hspeech (by simp)
  have hbranch := @Statement.RunAt.alternate [.choice "Go." [] none] [] [.divert "Attic"] _ _
    ["late"] _ _ hhere
  have hrun : Segment.RunAt noisyScene 2 1 noisyChoices :=
    @Segment.RunAt.intro [] [] ⟨"Hall", _⟩ noisyChoices 1 1 hbranch
  obtain ⟨program, hprogram, hmenus⟩ := exists_generate_menus 0 noisyScene
  obtain ⟨front, records, back, htext, hrecords, -⟩ := hmenus hrun
  exact ⟨hrun, program, front, records, back, hprogram, htext, hrecords⟩

end Dialogue
