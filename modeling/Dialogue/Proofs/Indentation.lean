import Dialogue.Proofs.Compilation
import Dialogue.Proofs.Outline

/-!
# Indentation of programs

No text of a script can add a line to its program, break one in two, or move one.  A line is
*confined* if its text has no line feed and starts with no space.  Such a line stands in the text of
the program as one line, and the spaces it starts with are those of its depth
(`indents_terminated`).

All lines of a program are confined (`confined_of_programLines`).  Most texts are quoted.  The names
of speakers and segments and the code of the host platform are written as they are; these are
confined because the script has been read from a source.

Since the depths depend on nothing but the outline of the script, so does the indentation, and the
width of a level scales it (`indents_generate_of_outline`).
-/

namespace Dialogue

open Text

/-! ### Indentation of a text -/

/-- The lines of a text that end with a line feed. -/
def terminatedLines (text : String) : List (List Char) :=
  (text.toList.splitOn '\n').dropLast

/-- The number of spaces that each line of a text starts with. -/
def indents (text : String) : List Nat :=
  (terminatedLines text).map fun l => (l.takeWhile (· == ' ')).length

/-- A line whose text cannot be taken for more than one line or for indentation. -/
structure Line.Confined (l : Line) : Prop where
  newline_notMem : '\n' ∉ l.text.toList
  start : ∀ c ∈ l.text.toList.head?, c ≠ ' '

theorem splitOn_flatMap {ts : List (List Char)} (h : ∀ t ∈ ts, '\n' ∉ t) :
    (ts.flatMap fun t => t ++ ['\n']).splitOn '\n' = ts ++ [[]] := by
  induction ts with
  | nil => rfl
  | cons t ts ih =>
    obtain ⟨ht, hts⟩ := List.forall_mem_cons.mp h
    have hstop : ∀ c ∈ t, (c == '\n') = false := by
      intro c hc
      apply beq_eq_false_iff_ne.mpr
      rintro rfl
      exact ht hc
    have hrest := ih hts
    rw [List.splitOn_eq_splitOnP] at hrest ⊢
    rw [List.flatMap_cons, List.append_assoc, List.singleton_append,
      List.splitOnP_append_cons_of_forall_mem hstop '\n' rfl, hrest, List.cons_append]

namespace Line

theorem Confined.newline_notMem_render {l : Line} (h : l.Confined) (width : Nat) :
    '\n' ∉ (l.render width).toList := by
  rw [toList_render, List.mem_append, not_or]
  refine ⟨fun hmem => ?_, h.newline_notMem⟩
  exact absurd (List.mem_replicate.mp hmem).2 (by decide)

theorem terminatedLines_terminated {ls : List Line} (h : ∀ l ∈ ls, l.Confined) (width : Nat) :
    terminatedLines (terminated width ls) = ls.map fun l => (l.render width).toList := by
  have htexts : ∀ t ∈ ls.map fun l => (l.render width).toList, '\n' ∉ t := by
    rw [List.forall_mem_map]
    exact fun l hl => (h l hl).newline_notMem_render width
  rw [terminatedLines, toList_terminated, splitOn_flatMap htexts, List.dropLast_concat]

/-- **Confined lines are indented by their depths**, and there are no other lines. -/
theorem indents_terminated {ls : List Line} (h : ∀ l ∈ ls, l.Confined) (width : Nat) :
    indents (terminated width ls) = (ls.map Line.depth).map (· * width) := by
  rw [indents, terminatedLines_terminated h, List.map_map, List.map_map]
  apply List.map_congr_left
  intro l hl
  exact length_takeWhile_render (h l hl).start width

end Line

/-! ### Lines of code -/

theorem Shown.confined {width : Nat} {ls : List Line} {ps : List (Nat × List Atom)}
    (h : Shown width ls ps) : ∀ l ∈ ls, l.Confined := by
  induction h with
  | nil => exact List.forall_mem_nil _
  | cons hshows _ ih =>
    exact List.forall_mem_cons.mpr ⟨⟨hshows.isLineText.1, hshows.start⟩, ih⟩

/-- Lines that can be read are confined. -/
theorem Logical.confined {width : Nat} {ls : List Line} {out : List (Nat × List Atom)}
    (h : Logical width ls out) : ∀ l ∈ ls, l.Confined := by
  obtain ⟨ps, hshown, -⟩ := h
  exact hshown.confined

theorem IsCode.confined {text : String} (h : IsCode text) (depth : Nat) :
    Line.Confined ⟨depth, text⟩ := by
  obtain ⟨-, hnewline, -, hstart, -⟩ := h
  refine ⟨hnewline, ?_⟩
  rintro c hc rfl
  exact absurd (hstart ' ' hc) (by decide)

namespace Action

/-- An action whose texts stay on their lines: those that are not quoted are names and code. -/
inductive Confined : Action → Prop
  | say {actor : String} (line : String) : IsSegmentName actor → Confined (.say actor line)
  | leave (target : String) : Confined (.leave target)
  | call (name : String) (args : List String) : Confined (.call name args)
  | code {text : String} : IsCode text → Confined (.code text)
  | menu (slot : Nat) (choices : List Statement) : Confined (.menu slot choices)
  | branch (conditions : List String) {consequent alternate : List Action} :
      (∀ a ∈ consequent, Confined a) → (∀ a ∈ alternate, Confined a) →
      Confined (.branch conditions consequent alternate)

/-- The actions of a well-formed block are confined. -/
theorem Lowers.confined {slot free : Nat} {stmts : List Statement} {actions : List Action}
    (h : Lowers slot stmts actions free) (hwf : ∀ stmt ∈ stmts, stmt.WellFormed) :
    ∀ a ∈ actions, a.Confined := by
  induction h with
  | nil => exact List.forall_mem_nil _
  | menu _ _ ih =>
    refine List.forall_mem_cons.mpr ⟨.menu _ _, ih fun s hs => hwf s ?_⟩
    exact List.mem_cons_of_mem _ (List.dropWhile_subset _ hs)
  | divert target _ ih =>
    exact List.forall_mem_cons.mpr ⟨.leave target, ih (List.forall_mem_cons.mp hwf).2⟩
  | speech actor line _ ih =>
    obtain ⟨hstmt, hrest⟩ := List.forall_mem_cons.mp hwf
    cases hstmt with
    | speech hactor => exact List.forall_mem_cons.mpr ⟨.say line hactor.isSegmentName, ih hrest⟩
  | call name args _ ih =>
    exact List.forall_mem_cons.mpr ⟨.call name args, ih (List.forall_mem_cons.mp hwf).2⟩
  | script text _ ih =>
    obtain ⟨hstmt, hrest⟩ := List.forall_mem_cons.mp hwf
    cases hstmt with
    | script hcode => exact List.forall_mem_cons.mpr ⟨.code hcode, ih hrest⟩
  | conditional conditions _ _ _ ih₁ ih₂ ih =>
    obtain ⟨hstmt, hrest⟩ := List.forall_mem_cons.mp hwf
    cases hstmt with
    | conditional _ _ hconsequent halternate =>
      exact List.forall_mem_cons.mpr
        ⟨.branch conditions (ih₁ hconsequent) (ih₂ halternate), ih hrest⟩

theorem confined_orPass {ls : List Line} (h : ∀ l ∈ ls, l.Confined) (depth : Nat) :
    ∀ l ∈ orPass depth ls, l.Confined := by
  rw [orPass]
  split
  · exact (Spells.logical 0 (.word "pass" .nil) (by simp)).confined
  · exact h

mutual

/-- **The lines of a confined action are confined.** -/
theorem confined_lines : (a : Action) → a.Confined → (depth : Nat) →
    ∀ l ∈ a.lines depth, l.Confined
  | say actor line, h, depth => by
    cases h with
    | say _ hactor => exact (logical_lines 0 (say actor line) (.say line hactor) depth).confined
  | leave target, _, depth => (logical_return_text 0 depth target).confined
  | call name args, _, depth => (logical_call 0 depth name args).confined
  | code text, h, depth => by
    cases h with
    | code hcode => exact List.forall_mem_singleton.mpr (hcode.confined depth)
  | menu slot choices, _, depth => (logical_menuLines 0 depth slot choices).confined
  | branch conditions consequent alternate, h, depth => by
    cases h with
    | branch _ hconsequent halternate =>
      have htest := (logical_if 0 depth conditions).confined _ (List.mem_singleton.mpr rfl)
      have hyes := confined_orPass
        (confined_listLines consequent hconsequent (depth + 1)) (depth + 1)
      have hno := confined_listLines alternate halternate (depth + 1)
      -- the line of `else` is there only if the second branch has actions
      have helse : Line.Confined ⟨depth, "else:"⟩ :=
        (Spells.logical 0 (.word "else" (.mark ':' .nil)) (by simp)).confined _
          (List.mem_singleton.mpr rfl)
      rw [lines]
      refine List.forall_mem_cons.mpr ⟨htest, List.forall_mem_append.mpr ⟨hyes, ?_⟩⟩
      split
      · exact List.forall_mem_nil _
      · exact List.forall_mem_cons.mpr ⟨helse, hno⟩

theorem confined_listLines : (actions : List Action) → (∀ a ∈ actions, a.Confined) →
    (depth : Nat) → ∀ l ∈ listLines depth actions, l.Confined
  | [], _, _ => List.forall_mem_nil _
  | a :: rest, h, depth => by
    obtain ⟨ha, hrest⟩ := List.forall_mem_cons.mp h
    rw [listLines]
    exact List.forall_mem_append.mpr
      ⟨confined_lines a ha depth, confined_listLines rest hrest depth⟩

end

end Action

/-! ### Programs -/

namespace Routine

theorem confined_lines {r : Routine} (hname : ∀ c ∈ r.name.toList, IsWordChar c)
    (hbody : ∀ a ∈ r.body, a.Confined) : ∀ l ∈ r.lines, l.Confined := by
  have hheader := (logical_header 0 hname).confined _ (List.mem_singleton.mpr rfl)
  have hblock := Action.confined_orPass (Action.confined_listLines r.body hbody 1) 1
  have hexit := (logical_exitLines 0 r.exit).confined
  have hempty := (logical_empty 0).confined
  rw [lines]
  refine List.forall_mem_cons.mpr ⟨hheader, List.forall_mem_append.mpr ⟨?_, hempty⟩⟩
  exact List.forall_mem_append.mpr ⟨hblock, hexit⟩

theorem Lowered.confined {segments : List Segment} {routines : List Routine}
    (h : Lowered segments routines)
    (hnames : ∀ s ∈ segments, ∀ c ∈ s.name.toList, IsWordChar c)
    (hwf : ∀ s ∈ segments, ∀ stmt ∈ s.children, stmt.WellFormed) :
    ∀ l ∈ listLines routines, l.Confined := by
  induction h with
  | nil => exact List.forall_mem_nil _
  | cons hsegment _ ih =>
    rw [List.forall_mem_cons] at hnames hwf
    obtain ⟨body, hbody, rfl⟩ := ofSegment_eq_ok_iff.mp hsegment
    rw [listLines]
    exact List.forall_mem_append.mpr
      ⟨confined_lines hnames.1 (hbody.confined hwf.1), ih hnames.2 hwf.2⟩

end Routine

/-- **All lines of the program for a well-formed script are confined.** -/
theorem confined_of_programLines {segments : List Segment} (hwf : WellFormedScript segments)
    {ls : List Line} (h : programLines segments = .ok ls) : ∀ l ∈ ls, l.Confined := by
  obtain ⟨routines, hroutines, hlowered⟩ := Routine.exists_ofSegments segments 0
  have hnames : ∀ name ∈ segments.map (·.name), ∀ c ∈ name.toList, IsWordChar c := by
    rw [List.forall_mem_map]
    exact fun s hs => hwf.isWordChar_of_mem hs
  rw [programLines, hroutines] at h
  cases h
  exact List.forall_mem_append.mpr ⟨(Routine.logical_dispatcherLines 0 hnames).confined,
    hlowered.confined (fun s hs => hwf.isWordChar_of_mem hs) hwf.children⟩

/-- The program for an accepted script is indented as its outline says. -/
theorem exists_generate_indents {name source : String} {segments : List Segment}
    (h : readScript name source = .ok segments) (width : Nat) :
    ∃ program, generate width segments = .ok program ∧
      indents program = (lineDepths (segments.map Segment.outline)).map (· * width) := by
  obtain ⟨routines, hroutines, -⟩ := Routine.exists_ofSegments segments 0
  obtain ⟨ls, hls⟩ : ∃ ls, programLines segments = .ok ls := ⟨_, by rw [programLines, hroutines]⟩
  have hconfined := confined_of_programLines (wellFormedScript_of_readScript h) hls
  refine ⟨Line.terminated width ls, by rw [generate, hls], ?_⟩
  -- the outline has the depths of the program, though not its texts
  have hdepths : lineDepths (segments.map Segment.outline) = ls.map Line.depth := by
    rw [Segment.outline, lineDepths_mapTexts, lineDepths, hls]
  rw [Line.indents_terminated hconfined, hdepths]

/-- **Texts do not change the structure of a program, and the width of a level scales it.**  The
programs for accepted scripts of the same outline have the same number of lines, whatever the widths
are.  The depths of the lines depend on the outline only, and each line starts with exactly as many
spaces as its depth makes at the width in question. -/
theorem indents_generate_of_outline {name₁ name₂ source₁ source₂ : String}
    {segments₁ segments₂ : List Segment} (h₁ : readScript name₁ source₁ = .ok segments₁)
    (h₂ : readScript name₂ source₂ = .ok segments₂)
    (houtline : segments₁.map Segment.outline = segments₂.map Segment.outline)
    (width₁ width₂ : Nat) :
    ∃ program₁ program₂,
      generate width₁ segments₁ = .ok program₁ ∧ generate width₂ segments₂ = .ok program₂ ∧
      (terminatedLines program₁).length = (terminatedLines program₂).length ∧
      indents program₁ = (lineDepths (segments₁.map Segment.outline)).map (· * width₁) ∧
      indents program₂ = (lineDepths (segments₁.map Segment.outline)).map (· * width₂) := by
  obtain ⟨program₁, hprogram₁, hindents₁⟩ := exists_generate_indents h₁ width₁
  obtain ⟨program₂, hprogram₂, hindents₂⟩ := exists_generate_indents h₂ width₂
  rw [← houtline] at hindents₂
  have hlength : (terminatedLines program₁).length = (terminatedLines program₂).length :=
    calc (terminatedLines program₁).length
        = (indents program₁).length := (List.length_map _).symm
      _ = (lineDepths (segments₁.map Segment.outline)).length := by
          rw [hindents₁, List.length_map]
      _ = (indents program₂).length := by rw [hindents₂, List.length_map]
      _ = (terminatedLines program₂).length := List.length_map _
  exact ⟨program₁, program₂, hprogram₁, hprogram₂, hlength, hindents₁, hindents₂⟩

/-- A scene with a text of every kind that a line may hold. -/
def echoScene (actor line condition code answer : String) : List Segment :=
  [⟨"Hall", [.speech actor line,
    .conditional [condition] [.script code] [.choice answer [condition] none]]⟩]

theorem readScript_echoScene {actor line condition code answer : String}
    (hactor : IsIdentifier actor) (hcondition : IsCondition condition) (hcode : IsCode code)
    (name : String) :
    readScript name (printScript (echoScene actor line condition code answer)) =
      .ok (echoScene actor line condition code answer) := by
  have hhall : IsSegmentName "Hall" := by decide
  have hconditions : ∀ e ∈ [condition], IsCondition e := List.forall_mem_singleton.mpr hcondition
  have hbranch : (Statement.conditional [condition] [.script code]
      [.choice answer [condition] none]).WellFormed :=
    .conditional (List.cons_ne_nil _ _) hconditions
      (List.forall_mem_singleton.mpr (.script hcode))
      (List.forall_mem_singleton.mpr (.choice hconditions (by simp)))
  have hwf : WellFormedScript (echoScene actor line condition code answer) := by
    refine ⟨?_, List.forall_mem_nil _, List.forall_mem_singleton.mpr ?_⟩
    · rintro _ ⟨⟩
      exact .inl hhall
    · exact List.forall_mem_cons.mpr ⟨.speech hactor, List.forall_mem_singleton.mpr hbranch⟩
  exact readScript_eq_ok_iff.mpr hwf.exists_tokens

/-- Quiet texts. -/
def calmScene : List Segment :=
  echoScene "ann" "Hello." "seen" "wave()" "Leave."

/-- Texts with line feeds, spaces, quotes and brackets. -/
def wildScene : List Segment :=
  echoScene "bob" "  one\n  two \"" " n > 1 // [" "if [: \"#   \\n" "\n\n  ]),"

theorem indents_generate_wildScene :
    readScript "calm" (printScript calmScene) = .ok calmScene ∧
      readScript "wild" (printScript wildScene) = .ok wildScene ∧
      calmScene.map Segment.outline = wildScene.map Segment.outline ∧
      ∃ calm wild, generate 4 calmScene = .ok calm ∧ generate 0 wildScene = .ok wild ∧
        (terminatedLines calm).length = (terminatedLines wild).length ∧
        indents calm = (lineDepths (calmScene.map Segment.outline)).map (· * 4) ∧
        indents wild = (lineDepths (calmScene.map Segment.outline)).map (· * 0) := by
  have hcalm : readScript "calm" (printScript calmScene) = .ok calmScene :=
    readScript_echoScene (by decide) (by decide) (by decide) "calm"
  have hwild : readScript "wild" (printScript wildScene) = .ok wildScene :=
    readScript_echoScene (by decide) (by decide) (by decide) "wild"
  exact ⟨hcalm, hwild, rfl, indents_generate_of_outline hcalm hwild rfl 4 0⟩

end Dialogue
