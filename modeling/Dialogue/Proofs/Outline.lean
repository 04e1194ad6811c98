import Dialogue.Proofs.Lowering

/-!
# Scripts that differ in texts only

`mapTexts f` replaces every text of a tree by its image under `f` and keeps the rest: the forms, the
lengths of all lists, and which optional parts are there.  The *outline* of a segment has the empty
text everywhere, so scripts have the same outline just if they differ in texts only.

The structure of a program is that of its outline.  Lowering looks at no text
(`Action.Lowers.mapTexts`), and the lines of an action stand at depths that no text has a part in
(`Action.map_depth_lines_mapTexts`); so the lines of the program do as well
(`lineDepths_mapTexts`).
-/

namespace Dialogue

/-! ### Replacing texts -/

namespace Offer

mutual

/-- An offer with other texts. -/
def mapTexts (f : String → String) : Offer → Offer
  | line text divert => line (f text) (divert.map f)
  | split condition consequent alternate =>
    split (f condition) (mapTexts? f consequent) (mapTexts? f alternate)

/-- A branch with other texts. -/
def mapTexts? (f : String → String) : Option Offer → Option Offer
  | none => none
  | some o => some (mapTexts f o)

end

end Offer

namespace Statement

mutual

/-- A statement with other texts. -/
def mapTexts (f : String → String) : Statement → Statement
  | divert target => divert (f target)
  | speech actor line => speech (f actor) (f line)
  | choice line conditions target => choice (f line) (conditions.map f) (target.map f)
  | offer o => offer (o.mapTexts f)
  | conditional conditions consequent alternate =>
    conditional (conditions.map f) (listMapTexts f consequent) (listMapTexts f alternate)
  | call name args => call (f name) (args.map f)
  | script code => script (f code)

/-- A block with other texts. -/
def listMapTexts (f : String → String) : List Statement → List Statement
  | [] => []
  | stmt :: stmts => mapTexts f stmt :: listMapTexts f stmts

end

theorem isChoice_mapTexts (f : String → String) (stmt : Statement) :
    (stmt.mapTexts f).isChoice = stmt.isChoice := by
  cases stmt <;> rfl

theorem listMapTexts_eq_map (f : String → String) (stmts : List Statement) :
    listMapTexts f stmts = stmts.map (mapTexts f) := by
  induction stmts with
  | nil => rfl
  | cons stmt stmts ih => rw [listMapTexts, ih, List.map_cons]

/-- Choices stay next to each other. -/
theorem takeWhile_listMapTexts (f : String → String) (stmts : List Statement) :
    (listMapTexts f stmts).takeWhile isChoice = listMapTexts f (stmts.takeWhile isChoice) := by
  have hchoice : isChoice ∘ mapTexts f = isChoice := funext (isChoice_mapTexts f)
  rw [listMapTexts_eq_map, List.takeWhile_map, hchoice, listMapTexts_eq_map]

theorem dropWhile_listMapTexts (f : String → String) (stmts : List Statement) :
    (listMapTexts f stmts).dropWhile isChoice = listMapTexts f (stmts.dropWhile isChoice) := by
  have hchoice : isChoice ∘ mapTexts f = isChoice := funext (isChoice_mapTexts f)
  rw [listMapTexts_eq_map, List.dropWhile_map, hchoice, listMapTexts_eq_map]

end Statement

namespace Action

mutual

/-- An action with other texts. -/
def mapTexts (f : String → String) : Action → Action
  | say actor line => say (f actor) (f line)
  | leave target => leave (f target)
  | call name args => call (f name) (args.map f)
  | code text => code (f text)
  | menu slot choices => menu slot (Statement.listMapTexts f choices)
  | branch conditions consequent alternate =>
    branch (conditions.map f) (listMapTexts f consequent) (listMapTexts f alternate)

/-- Actions with other texts. -/
def listMapTexts (f : String → String) : List Action → List Action
  | [] => []
  | action :: rest => mapTexts f action :: listMapTexts f rest

end

/-- **Lowering looks at no text.** -/
theorem Lowers.mapTexts (f : String → String) {slot free : Nat} {stmts : List Statement}
    {actions : List Action} (h : Lowers slot stmts actions free) :
    Lowers slot (Statement.listMapTexts f stmts) (listMapTexts f actions) free := by
  induction h with
  | nil => exact .nil
  | @menu slot free stmt rest actions hchoice _ ih =>
    -- the same choices go into the menu, so lowering goes on behind the same statement
    rw [← Statement.dropWhile_listMapTexts] at ih
    have hmenu := Lowers.menu ((Statement.isChoice_mapTexts f stmt).trans hchoice) ih
    rw [Statement.takeWhile_listMapTexts] at hmenu
    exact hmenu
  | divert target _ ih => exact .divert (f target) ih
  | speech actor line _ ih => exact .speech (f actor) (f line) ih
  | call name args _ ih => exact .call (f name) (args.map f) ih
  | script text _ ih => exact .script (f text) ih
  | conditional conditions _ _ _ ih₁ ih₂ ih => exact .conditional (conditions.map f) ih₁ ih₂ ih

end Action

/-- A segment with other texts. -/
def Segment.mapTexts (f : String → String) (s : Segment) : Segment :=
  ⟨f s.name, Statement.listMapTexts f s.children⟩

/-- **The outline of a segment**: all its texts are empty. -/
def Segment.outline : Segment → Segment :=
  Segment.mapTexts fun _ => ""

/-- An exit with another text. -/
def Exit.mapTexts (f : String → String) : Exit → Exit
  | diverted => diverted
  | next name => next (f name)
  | stop => stop

namespace Routine

/-- A routine with other texts. -/
def mapTexts (f : String → String) (r : Routine) : Routine :=
  ⟨f r.name, Action.listMapTexts f r.body, r.exit.mapTexts f⟩

theorem endsWithDivert_listMapTexts (f : String → String) (stmts : List Statement) :
    endsWithDivert (Statement.listMapTexts f stmts) = endsWithDivert stmts := by
  induction stmts with
  | nil => rfl
  | cons stmt stmts ih =>
    cases stmts with
    | nil => cases stmt <;> rfl
    | cons next rest =>
      simp only [endsWithDivert, Statement.listMapTexts, List.getLast?_cons_cons] at ih ⊢
      exact ih

theorem exitOf_listMapTexts (f : String → String) (children : List Statement)
    (next : Option String) :
    exitOf (Statement.listMapTexts f children) (next.map f) =
      (exitOf children next).mapTexts f := by
  unfold exitOf
  rw [endsWithDivert_listMapTexts]
  split
  · rfl
  · cases next <;> rfl

theorem ofSegment_mapTexts (f : String → String) {segment : Segment} {next : Option String}
    {slot free : Nat} {r : Routine} (h : ofSegment segment next slot = .ok (r, free)) :
    ofSegment (segment.mapTexts f) (next.map f) slot = .ok (mapTexts f r, free) := by
  obtain ⟨body, hbody, rfl⟩ := ofSegment_eq_ok_iff.mp h
  refine ofSegment_eq_ok_iff.mpr ⟨_, hbody.mapTexts f, ?_⟩
  simp only [mapTexts, Segment.mapTexts, exitOf_listMapTexts]

/-- **The routines of segments with other texts are those of the segments, with other texts.** -/
theorem exists_ofSegments_mapTexts (f : String → String) (segments : List Segment) (slot : Nat) :
    ∃ routines, ofSegments slot segments = .ok routines ∧
      ofSegments slot (segments.map (·.mapTexts f)) = .ok (routines.map (mapTexts f)) := by
  induction segments generalizing slot with
  | nil => exact ⟨[], rfl, rfl⟩
  | cons segment rest ih =>
    obtain ⟨body, free, hbody⟩ := Action.exists_lowers segment.children slot
    obtain ⟨r, hsegment⟩ : ∃ r, ofSegment segment (rest.head?.map (·.name)) slot = .ok (r, free) :=
      ⟨_, ofSegment_eq_ok_iff.mpr ⟨body, hbody, rfl⟩⟩
    obtain ⟨routines, hrest, hrest'⟩ := ih free
    -- control goes on with the next segment, whose name is one of the texts
    have hnext : (rest.map (·.mapTexts f)).head?.map (·.name) =
        (rest.head?.map (·.name)).map f := by
      cases rest <;> rfl
    refine ⟨r :: routines, ?_, ?_⟩
    · rw [ofSegments, hsegment]
      simp only [hrest]
    · rw [List.map_cons, ofSegments, hnext, ofSegment_mapTexts f hsegment]
      simp only [hrest', List.map_cons]

end Routine

/-! ### Depths of records -/

namespace Json

mutual

/-- The depths of the lines of a value. -/
def depths (depth : Nat) : Json → List Nat
  | null => [depth]
  | text _ => [depth]
  | list [] => [depth]
  | list (item :: items) => depth :: (itemsDepths (depth + 1) (item :: items) ++ [depth])
  | record [] => [depth]
  | record (field :: fields) => depth :: (fieldsDepths (depth + 1) (field :: fields) ++ [depth])

/-- The depths of the lines of items. -/
def itemsDepths (depth : Nat) : List Json → List Nat
  | [] => []
  | item :: items => depths depth item ++ itemsDepths depth items

/-- The depths of the lines of fields. -/
def fieldsDepths (depth : Nat) : List (String × Json) → List Nat
  | [] => []
  | (_, value) :: fields => depths depth value ++ fieldsDepths depth fields

end

mutual

/-- What stands around a value has no part in the depths of its lines. -/
theorem map_depth_layout : (v : Json) → (depth : Nat) → (before after : String) →
    (v.layout depth before after).map Line.depth = v.depths depth
  | null, depth, before, after => by simp [layout, depths]
  | text value, depth, before, after => by simp [layout, depths]
  | list [], depth, before, after => by simp [layout, depths]
  | list (item :: items), depth, before, after => by
    simp [layout, depths, map_depth_layoutItems (item :: items) (depth + 1)]
  | record [], depth, before, after => by simp [layout, depths]
  | record (field :: fields), depth, before, after => by
    simp [layout, depths, map_depth_layoutFields (field :: fields) (depth + 1)]

theorem map_depth_layoutItems : (items : List Json) → (depth : Nat) →
    (layoutItems depth items).map Line.depth = itemsDepths depth items
  | [], _ => rfl
  | item :: items, depth => by
    rw [layoutItems, List.map_append, map_depth_layout item, map_depth_layoutItems items,
      itemsDepths]

theorem map_depth_layoutFields : (fields : List (String × Json)) → (depth : Nat) →
    (layoutFields depth fields).map Line.depth = fieldsDepths depth fields
  | [], _ => rfl
  | (key, value) :: fields, depth => by
    rw [layoutFields, List.map_append, map_depth_layout value, map_depth_layoutFields fields,
      fieldsDepths]

end

theorem depths_list_congr {items items' : List Json} (hempty : items.isEmpty = items'.isEmpty)
    (h : ∀ depth, itemsDepths depth items = itemsDepths depth items') (depth : Nat) :
    (list items).depths depth = (list items').depths depth := by
  cases items with
  | nil =>
    cases items' with
    | nil => rfl
    | cons => cases hempty
  | cons =>
    cases items' with
    | nil => cases hempty
    | cons => rw [depths, depths, h]

theorem depths_ofTexts_map (f : String → String) (texts : List String) (depth : Nat) :
    (ofTexts (texts.map f)).depths depth = (ofTexts texts).depths depth := by
  refine depths_list_congr (by simp) (fun depth => ?_) depth
  induction texts with
  | nil => rfl
  | cons t texts ih => simp only [List.map_cons, itemsDepths, depths, ih]

theorem depths_ofText?_map (f : String → String) (value : Option String) (depth : Nat) :
    (ofText? (value.map f)).depths depth = (ofText? value).depths depth := by
  cases value <;> rfl

end Json

mutual

theorem Offer.depths_toJson_mapTexts (f : String → String) : (o : Offer) → (depth : Nat) →
    (o.mapTexts f).toJson.depths depth = o.toJson.depths depth
  | .line text divert, depth => by
    simp only [mapTexts, toJson, Json.tagged, Json.depths, Json.fieldsDepths,
      Json.depths_ofText?_map]
  | .split condition consequent alternate, depth => by
    simp only [mapTexts, toJson, Json.tagged, Json.depths, Json.fieldsDepths,
      depths_toJson?_mapTexts f consequent, depths_toJson?_mapTexts f alternate]

theorem Offer.depths_toJson?_mapTexts (f : String → String) : (o : Option Offer) →
    (depth : Nat) → (toJson? (mapTexts? f o)).depths depth = (toJson? o).depths depth
  | none, _ => rfl
  | some o, depth => depths_toJson_mapTexts f o depth

end

namespace Statement

theorem isEmpty_listToJson_listMapTexts (f : String → String) (stmts : List Statement) :
    (listToJson (listMapTexts f stmts)).isEmpty = (listToJson stmts).isEmpty := by
  cases stmts <;> rfl

mutual

/-- **The record of a statement has its lines at the same depths, whatever the texts are.** -/
theorem depths_toJson_mapTexts (f : String → String) : (stmt : Statement) → (depth : Nat) →
    (stmt.mapTexts f).toJson.depths depth = stmt.toJson.depths depth
  | divert _, _ | speech _ _, _ | script _, _ => by
    simp only [mapTexts, toJson, Json.tagged, Json.depths, Json.fieldsDepths]
  | choice line conditions target, depth => by
    simp only [mapTexts, toJson, Json.tagged, Json.depths, Json.fieldsDepths,
      Json.depths_ofText?_map, Json.depths_ofTexts_map]
  | offer o, depth => o.depths_toJson_mapTexts f depth
  | conditional conditions consequent alternate, depth => by
    have hconsequent := Json.depths_list_congr (isEmpty_listToJson_listMapTexts f consequent)
      (itemsDepths_listToJson_listMapTexts f consequent)
    have halternate := Json.depths_list_congr (isEmpty_listToJson_listMapTexts f alternate)
      (itemsDepths_listToJson_listMapTexts f alternate)
    rw [mapTexts, toJson, toJson, Json.tagged, Json.tagged, Json.depths, Json.depths]
    simp only [Json.fieldsDepths, Json.depths_ofTexts_map, hconsequent, halternate]
  | call name args, depth => by
    simp only [mapTexts, toJson, Json.tagged, Json.depths, Json.fieldsDepths,
      Json.depths_ofTexts_map]

theorem itemsDepths_listToJson_listMapTexts (f : String → String) : (stmts : List Statement) →
    (depth : Nat) → Json.itemsDepths depth (listToJson (listMapTexts f stmts)) =
      Json.itemsDepths depth (listToJson stmts)
  | [], _ => rfl
  | stmt :: stmts, depth => by
    rw [listMapTexts, listToJson, listToJson, Json.itemsDepths, Json.itemsDepths,
      depths_toJson_mapTexts f stmt, itemsDepths_listToJson_listMapTexts f stmts]

end

end Statement

/-! ### Depths of code -/

namespace Action

theorem map_depth_choiceLines_listMapTexts (f : String → String) (depth : Nat)
    (choices : List Statement) :
    (choiceLines depth (Statement.listMapTexts f choices)).map Line.depth =
      (choiceLines depth choices).map Line.depth := by
  induction choices with
  | nil => rfl
  | cons choice rest ih =>
    rw [Statement.listMapTexts, choiceLines, choiceLines, List.map_append, List.map_append, ih,
      Json.map_depth_layout, Json.map_depth_layout, Statement.depths_toJson_mapTexts]

theorem map_depth_orPass {ls ls' : List Line} (h : ls.map Line.depth = ls'.map Line.depth)
    (depth : Nat) :
    (orPass depth ls).map Line.depth = (orPass depth ls').map Line.depth := by
  cases ls with
  | nil => rw [List.map_eq_nil_iff.mp h.symm]
  | cons =>
    cases ls' with
    | nil => cases h
    | cons => exact h

mutual

/-- **The lines of an action stand at the same depths, whatever the texts are.** -/
theorem map_depth_lines_mapTexts (f : String → String) : (a : Action) → (depth : Nat) →
    ((a.mapTexts f).lines depth).map Line.depth = (a.lines depth).map Line.depth
  | say _ _, _ | leave _, _ | call _ _, _ | code _, _ => by
    simp only [mapTexts, lines, List.map_cons, List.map_nil]
  | menu slot choices, depth => by
    have hchoices := map_depth_choiceLines_listMapTexts f (depth + 1) choices
    simp only [mapTexts, lines, menuLines, List.map_cons, List.map_append, hchoices]
  | branch conditions consequent alternate, depth => by
    have hconsequent := map_depth_orPass
      (map_depth_listLines_listMapTexts f consequent (depth + 1)) (depth + 1)
    have halternate := map_depth_listLines_listMapTexts f alternate (depth + 1)
    cases alternate with
    | nil => simp [mapTexts, listMapTexts, lines, hconsequent]
    | cons action rest =>
      rw [listMapTexts] at halternate
      simp [mapTexts, listMapTexts, lines, hconsequent, halternate]

theorem map_depth_listLines_listMapTexts (f : String → String) : (actions : List Action) →
    (depth : Nat) → (listLines depth (listMapTexts f actions)).map Line.depth =
      (listLines depth actions).map Line.depth
  | [], _ => rfl
  | a :: rest, depth => by
    rw [listMapTexts, listLines, listLines, List.map_append, List.map_append,
      map_depth_lines_mapTexts f a, map_depth_listLines_listMapTexts f rest]

end

end Action

namespace Routine

theorem map_depth_lines_mapTexts (f : String → String) (r : Routine) :
    (mapTexts f r).lines.map Line.depth = r.lines.map Line.depth := by
  have hbody := Action.map_depth_orPass
    (Action.map_depth_listLines_listMapTexts f r.body 1) 1
  have hexit : (exitLines (r.exit.mapTexts f)).map Line.depth =
      (exitLines r.exit).map Line.depth := by
    cases r.exit <;> simp only [Exit.mapTexts, exitLines, List.map_cons, List.map_nil]
  simp only [mapTexts, lines, List.map_cons, List.map_append, hbody, hexit]

theorem map_depth_listLines_map (f : String → String) (routines : List Routine) :
    (listLines (routines.map (mapTexts f))).map Line.depth =
      (listLines routines).map Line.depth := by
  induction routines with
  | nil => rfl
  | cons r rest ih =>
    rw [List.map_cons, listLines, listLines, List.map_append, List.map_append, ih,
      map_depth_lines_mapTexts]

theorem map_depth_dispatcherLines_map (f : String → String) (names : List String) :
    (dispatcherLines (names.map f)).map Line.depth = (dispatcherLines names).map Line.depth := by
  have hcases : (caseLines (names.map f)).map Line.depth = (caseLines names).map Line.depth := by
    induction names with
    | nil => rfl
    | cons name rest ih => simp only [List.map_cons, caseLines, ih]
  simp only [dispatcherLines, List.map_append, hcases]

end Routine

/-! ### Depths of a program -/

/-- The depths of the lines of the program for segments. -/
def lineDepths (segments : List Segment) : List Nat :=
  match programLines segments with
  | .error _ => []
  | .ok ls => ls.map Line.depth

/-- **The lines of a program stand at the same depths, whatever the texts of its script are.** -/
theorem lineDepths_mapTexts (f : String → String) (segments : List Segment) :
    lineDepths (segments.map (·.mapTexts f)) = lineDepths segments := by
  obtain ⟨routines, hroutines, hmapped⟩ := Routine.exists_ofSegments_mapTexts f segments 0
  have hnames : (segments.map (·.mapTexts f)).map (·.name) = (segments.map (·.name)).map f := by
    rw [List.map_map, List.map_map]
    rfl
  simp only [lineDepths, programLines, hroutines, hmapped, hnames, List.map_append,
    Routine.map_depth_dispatcherLines_map, Routine.map_depth_listLines_map]

end Dialogue
