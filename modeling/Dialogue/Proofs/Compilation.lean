import Dialogue.Proofs.Accepted
import Dialogue.Proofs.ReadingBack
import Dialogue.Proofs.RoundTrip

/-!
# Compilation preserves meaning

The pieces come together: a script that is accepted is well formed
(`wellFormedScript_of_readScript`), its segments can be lowered one by one
(`Routine.exists_ofSegments`), the text that is generated is read as the procedures of the routines
(`readProgram_routines`), and each of these does what its segment means (`Routine.run_procedure`).
The theorem is `exists_program_of_readScript`.
-/

namespace Dialogue

namespace Routine

/-! ### Segments are lowered one by one -/

/-- Routines of segments, one for each of them and in the same order. -/
inductive Lowered : List Segment → List Routine → Prop
  | nil : Lowered [] []
  | cons {segment : Segment} {rest : List Segment} {r : Routine} {routines : List Routine}
      {slot free : Nat} : ofSegment segment (rest.head?.map (·.name)) slot = .ok (r, free) →
      Lowered rest routines → Lowered (segment :: rest) (r :: routines)

/-- **All segments can be lowered.** -/
theorem exists_ofSegments (segments : List Segment) (slot : Nat) :
    ∃ routines, ofSegments slot segments = .ok routines ∧ Lowered segments routines := by
  induction segments generalizing slot with
  | nil => exact ⟨[], rfl, .nil⟩
  | cons segment rest ih =>
    obtain ⟨body, free, hbody⟩ := Action.exists_lowers segment.children slot
    have hsegment : ofSegment segment (rest.head?.map (·.name)) slot = .ok (_, free) :=
      ofSegment_eq_ok_iff.mpr ⟨body, hbody, rfl⟩
    obtain ⟨routines, hrest, hlowered⟩ := ih free
    refine ⟨_, ?_, .cons hsegment hlowered⟩
    rw [ofSegments, hsegment]
    simp only [hrest]

namespace Lowered

variable {segments : List Segment} {routines : List Routine}

theorem map_name (h : Lowered segments routines) :
    routines.map (·.name) = segments.map (·.name) := by
  induction h with
  | nil => rfl
  | cons hsegment _ ih =>
    obtain ⟨body, -, rfl⟩ := ofSegment_eq_ok_iff.mp hsegment
    rw [List.map_cons, List.map_cons, ih]

theorem readable (h : Lowered segments routines)
    (hnames : ∀ s ∈ segments, ∀ c ∈ s.name.toList, IsWordChar c)
    (hwf : ∀ s ∈ segments, ∀ stmt ∈ s.children, stmt.WellFormed)
    (hscript : ∀ s ∈ segments, Statement.listHasScript s.children = false) :
    ∀ r ∈ routines, r.Readable := by
  induction h with
  | nil => nofun
  | cons hsegment _ ih =>
    rw [List.forall_mem_cons] at hnames hwf hscript ⊢
    obtain ⟨body, hbody, rfl⟩ := ofSegment_eq_ok_iff.mp hsegment
    exact ⟨⟨hnames.1, hbody.readable hwf.1 hscript.1⟩,
      ih hnames.2 hwf.2 hscript.2⟩

/-- The routine of a segment goes on with the name of the next one. -/
theorem exists_ofSegment (h : Lowered segments routines) {i : Nat} {segment : Segment}
    (hi : segments[i]? = some segment) :
    ∃ r slot free, routines[i]? = some r ∧
      ofSegment segment (segments[i + 1]?.map (·.name)) slot = .ok (r, free) := by
  induction h generalizing i with
  | nil => cases hi
  | cons hsegment _ ih =>
    cases i with
    | zero =>
      cases hi
      rw [List.head?_eq_getElem?] at hsegment
      exact ⟨_, _, _, rfl, hsegment⟩
    | succ i => exact ih hi

end Lowered

end Routine

/-- Every script has a program. -/
theorem exists_generate (width : Nat) (segments : List Segment) :
    ∃ program, generate width segments = .ok program := by
  obtain ⟨routines, hroutines, -⟩ := Routine.exists_ofSegments segments 0
  exact ⟨_, by rw [generate, programLines, hroutines]⟩

/-- The program of a script is that of its segments. -/
theorem compile_eq (width : Nat) (name source : String) :
    compile width name source =
      (readScript name source).bind fun segments => diagnosed name (generate width segments) := by
  rw [compile, compileLogged, Logged.result_andThen, readScript]
  simp only [generateLogged, Logged.result_record]
  cases (segmentsLogged source).result <;> rfl

/-! ### The theorem -/

theorem WellFormedScript.isWordChar_of_mem {segments : List Segment} (h : WellFormedScript segments)
    {s : Segment} (hs : s ∈ segments) : ∀ c ∈ s.name.toList, IsWordChar c := by
  rcases h.name_of_mem hs with hname | hname
  · exact hname.2
  · rw [hname]
    nofun

/-- **Compilation preserves meaning.**  The program of an accepted script without code can be read,
its procedures are those of the segments, in order, and each of them passes through the same history
as its segment does and returns the same label, whatever the host and the player answer. -/
theorem exists_program_of_readScript {name source : String} {segments : List Segment} {width : Nat}
    (hread : readScript name source = .ok segments)
    (hscript : ∀ s ∈ segments, Statement.listHasScript s.children = false) (hwidth : 1 ≤ width) :
    ∃ (program : String) (procedures : List Procedure), generate width segments = .ok program ∧
      readProgram program = some procedures ∧
      procedures.map (·.name) = segments.map (fun s => Routine.entryName s.name) ∧
      ∀ (i : Nat) (segment : Segment), segments[i]? = some segment →
        ∃ procedure : Procedure, procedures[i]? = some procedure ∧ ∀ (o : Oracle) (h : History),
          procedure.run o h = some (segment.play o (segments[i + 1]?.map (·.name)) h) := by
  have hwf := wellFormedScript_of_readScript hread
  obtain ⟨routines, hroutines, hlowered⟩ := Routine.exists_ofSegments segments 0
  have hreadable := hlowered.readable (fun s hs => hwf.isWordChar_of_mem hs) hwf.children hscript
  have hnames : ∀ name ∈ segments.map (·.name), ∀ c ∈ name.toList, IsWordChar c := by
    rw [List.forall_mem_map]
    exact fun s hs => hwf.isWordChar_of_mem hs
  refine ⟨_, routines.map Routine.procedure, ?_, readProgram_routines hwidth hnames hreadable,
    ?_, ?_⟩
  · rw [generate, programLines, hroutines]
  · have hmap := congrArg (List.map Routine.entryName) hlowered.map_name
    rw [List.map_map, List.map_map] at hmap
    rw [List.map_map]
    exact hmap
  · intro i segment hi
    obtain ⟨r, slot, free, hr, hsegment⟩ := hlowered.exists_ofSegment hi
    have hmem := List.mem_of_getElem? hi
    refine ⟨r.procedure, by rw [List.getElem?_map, hr, Option.map_some], fun o h => ?_⟩
    exact Routine.run_procedure hsegment (hwf.children segment hmem) (hscript segment hmem) o h

/-- A script without code: a menu in a branch, a branch without statements, an offer next to a
choice, and a segment that ends with a divert. -/
def sampleScene : List Segment :=
  [⟨"", [.speech "ann" "back \"again\"?",
     .conditional ["seen", "n > 1"] [.choice "stay" [] none, .call "wave" ["", "\n"]] []]⟩,
   ⟨"Cave",
    [.choice "go" ["ready"] (some "Cave"), .offer (.split "lamp" (some (.line "look" none)) none),
     .divert "Cave"]⟩]

theorem wellFormedScript_sampleScene : WellFormedScript sampleScene := by
  have hseen : ∀ e ∈ ["seen", "n > 1"], IsCondition e := by decide
  have hready : ∀ e ∈ ["ready"], IsCondition e := by decide
  have hlamp : IsCondition "lamp" := by decide
  have hcave : IsTarget "Cave" := by decide
  have hwave : IsRoutineName "wave" := ⟨by decide, by rintro ⟨⟩ <;> decide⟩
  have hann : IsIdentifier "ann" := by decide
  have hoffer : (Offer.split "lamp" (some (.line "look" none)) none).WellFormed := by
    refine .split hlamp ?_ (by simp)
    rintro _ ⟨⟩
    exact .line (by simp)
  have hstay : ∀ stmt ∈ [Statement.choice "stay" [] none, .call "wave" ["", "\n"]],
      stmt.WellFormed :=
    List.forall_mem_cons.mpr
      ⟨.choice (by simp) (by simp), List.forall_mem_singleton.mpr (.call hwave)⟩
  refine ⟨?_, List.forall_mem_singleton.mpr (by decide), ?_⟩
  · rintro _ ⟨⟩
    exact .inr ⟨rfl, List.cons_ne_nil _ _⟩
  · refine List.forall_mem_cons.mpr ⟨?_, List.forall_mem_singleton.mpr ?_⟩
    · refine List.forall_mem_cons.mpr ⟨.speech hann, List.forall_mem_singleton.mpr ?_⟩
      exact .conditional (List.cons_ne_nil _ _) hseen hstay (List.forall_mem_nil _)
    · refine List.forall_mem_cons.mpr ⟨.choice hready (by rintro _ ⟨⟩; exact hcave), ?_⟩
      exact List.forall_mem_cons.mpr ⟨.offer hoffer, List.forall_mem_singleton.mpr (.divert hcave)⟩

theorem readScript_sampleScene :
    readScript "scene" (printScript sampleScene) = .ok sampleScene :=
  readScript_eq_ok_iff.mpr wellFormedScript_sampleScene.exists_tokens

theorem exists_program_sampleScene :
    readScript "scene" (printScript sampleScene) = .ok sampleScene ∧
      (∀ s ∈ sampleScene, Statement.listHasScript s.children = false) ∧
      ∃ (program : String) (procedures : List Procedure), generate 2 sampleScene = .ok program ∧
        readProgram program = some procedures ∧
        procedures.map (·.name) = ["__knot__", "__knot__Cave"] ∧
        ∀ (i : Nat) (segment : Segment), sampleScene[i]? = some segment →
          ∃ procedure : Procedure, procedures[i]? = some procedure ∧ ∀ (o : Oracle) (h : History),
            procedure.run o h = some (segment.play o (sampleScene[i + 1]?.map (·.name)) h) := by
  have hscript : ∀ s ∈ sampleScene, Statement.listHasScript s.children = false := by decide
  exact ⟨readScript_sampleScene, hscript,
    exists_program_of_readScript readScript_sampleScene hscript (by decide)⟩

end Dialogue
