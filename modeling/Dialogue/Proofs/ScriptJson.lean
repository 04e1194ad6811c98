import Dialogue.Proofs.Compilation

/-!
# Scripts are read back from their JSON

`readSegments` reads the JSON of a script: its text is cut into lines and these into atoms, the
atoms are put together to a value, and the value is taken for a list of segments.  A record is
recognised by its form and by the names of its fields, in their order.

Nothing gets lost on the way to the text: the lines of a value hold exactly its atoms, whatever the
width of a level (`Json.ofString?_pretty`), and the record of a statement determines the statement
(`Statement.ofJson?_toJson`).  So two scripts have the same JSON only if they are the same
(`readSegments_pretty_and_scriptJson_eq_iff`).
-/

namespace Dialogue

/-! ### Values -/

namespace Json

/-- The value of JSON text over several lines.  No line ends inside a text in quotes. -/
def ofString? (text : String) : Option Json :=
  match (text.toList.splitOn '\n').mapM readLine with
  | none => none
  | some lines =>
    match take (lines.flatMap Prod.snd) with
    | some (v, []) => some v
    | _ => none

theorem layout_ne_nil (depth : Nat) (before after : String) (v : Json) :
    v.layout depth before after ≠ [] := by
  cases v with
  | null | text => simp [layout]
  | list items => cases items <;> simp [layout]
  | record fields => cases fields <;> simp [layout]

theorem toList_joined (width : Nat) (ls : List Line) :
    (Line.joined width ls).toList =
      ['\n'].intercalate (ls.map fun l => (l.render width).toList) := by
  rw [Line.joined, String.toList_intercalate, List.map_map]
  rfl

/-- **Every value is read back from its text**, whatever the width of a level. -/
theorem ofString?_pretty (width : Nat) (v : Json) : ofString? (v.pretty width) = some v := by
  obtain ⟨-, ps, hshown, hatoms, -⟩ := absorbed_layout width v 0 label_empty false
  rw [separator, if_neg Bool.false_ne_true] at hshown
  rw [comma, if_neg Bool.false_ne_true, List.nil_append] at hatoms
  have hlines : (v.pretty width).toList.splitOn '\n' =
      (v.layout 0 "" "").map fun l => (l.render width).toList := by
    rw [pretty, toList_joined]
    refine List.splitOn_intercalate '\n' (fun l hl => (hshown.isLineText_of_mem l hl).1) ?_
    simpa using layout_ne_nil 0 "" "" v
  simp only [ofString?, hlines, hshown.mapM_render, hatoms, take_atoms]

/-- The texts that a list holds. -/
def texts? : Json → Option (List String)
  | list items => items.mapM text?
  | _ => none

theorem texts?_ofTexts (texts : List String) : (ofTexts texts).texts? = some texts :=
  mapM_text? texts

end Json

/-! ### Statements -/

namespace Statement

/-- The statement of a record without statements inside. -/
def ofPlainJson? (v : Json) : Option Statement :=
  match v with
  | .record [(tag, .text form), (name, .text value)] =>
    if tag = "type" ∧ form = "divert" ∧ name = "target" then some (.divert value)
    else if tag = "type" ∧ form = "script" ∧ name = "code" then some (.script value)
    else none
  | .record [(tag, .text form), (name₁, .text first), (name₂, second)] =>
    if tag = "type" ∧ form = "actor_line" ∧ name₁ = "actor" ∧ name₂ = "line" then
      second.text?.map (.speech first)
    else if tag = "type" ∧ form = "macro" ∧ name₁ = "name" ∧ name₂ = "args" then
      second.texts?.map (.call first)
    else ofChoiceJson? v
  | _ => ofChoiceJson? v

mutual

/-- The statement of a record. -/
def ofJson? : Json → Option Statement
  | .record [(tag, .text form), (name₁, .list conditions), (name₂, .list first),
      (name₃, .list second)] =>
    if tag = "type" ∧ form = "conditional" ∧ name₁ = "conditions" ∧ name₂ = "consequent" ∧
        name₃ = "alternate" then
      match conditions.mapM Json.text?, listOfJson? first, listOfJson? second with
      | some conditions, some consequent, some alternate =>
        some (.conditional conditions consequent alternate)
      | _, _, _ => none
    else none
  | v => ofPlainJson? v

/-- The statements of records, in order. -/
def listOfJson? : List Json → Option (List Statement)
  | [] => some []
  | v :: vs =>
    match ofJson? v, listOfJson? vs with
    | some stmt, some stmts => some (stmt :: stmts)
    | _, _ => none

end

/-- The record of an offer is recognised as that of a choice. -/
theorem ofJson?_offer (o : Offer) : ofJson? o.toJson = some (.offer o) := by
  have hchoice : ofChoiceJson? o.toJson = some (.offer o) :=
    ofChoiceJson?_toJson (show (offer o).isChoice = true from rfl)
  cases o with
  | line text divert =>
    rw [Offer.toJson, Json.tagged] at hchoice ⊢
    rw [ofJson?, ofPlainJson?, if_neg (by decide), if_neg (by decide)]
    · exact hchoice
    · simp
  | split condition consequent alternate =>
    rw [Offer.toJson, Json.tagged] at hchoice ⊢
    rw [ofJson?, ofPlainJson?]
    · exact hchoice
    all_goals simp

mutual

/-- **The record of a statement determines the statement.** -/
theorem ofJson?_toJson : (stmt : Statement) → ofJson? stmt.toJson = some stmt
  | .divert target => by
    rw [toJson, Json.tagged, ofJson?, ofPlainJson?, if_pos ⟨rfl, rfl, rfl⟩]
    simp
  | .speech actor line => by
    rw [toJson, Json.tagged, ofJson?, ofPlainJson?, if_pos ⟨rfl, rfl, rfl, rfl⟩]
    · rfl
    · simp
  | .choice line conditions target => by
    rw [toJson, Json.tagged, ofJson?, ofPlainJson?]
    · exact ofChoiceJson?_toJson (show (choice line conditions target).isChoice = true from rfl)
    all_goals simp
  | .offer o => ofJson?_offer o
  | .conditional conditions consequent alternate => by
    rw [toJson, Json.tagged, Json.ofTexts, ofJson?, if_pos ⟨rfl, rfl, rfl, rfl, rfl⟩,
      Json.mapM_text?, listOfJson?_listToJson consequent, listOfJson?_listToJson alternate]
  | .call name args => by
    rw [toJson, Json.tagged, ofJson?, ofPlainJson?, if_neg (by decide),
      if_pos ⟨rfl, rfl, rfl, rfl⟩, Json.texts?_ofTexts, Option.map_some]
    simp
  | .script code => by
    rw [toJson, Json.tagged, ofJson?, ofPlainJson?, if_neg (by decide), if_pos ⟨rfl, rfl, rfl⟩]
    simp

theorem listOfJson?_listToJson : (stmts : List Statement) →
    listOfJson? (listToJson stmts) = some stmts
  | [] => rfl
  | stmt :: stmts => by
    rw [listToJson, listOfJson?, ofJson?_toJson stmt, listOfJson?_listToJson stmts]

end

end Statement

/-! ### Scripts -/

/-- The segment of a record. -/
def Segment.ofJson? : Json → Option Segment
  | .record [(tag, .text form), (name₁, .text name), (name₂, .list children)] =>
    if tag = "type" ∧ form = "knot" ∧ name₁ = "name" ∧ name₂ = "children" then
      (Statement.listOfJson? children).map (⟨name, ·⟩)
    else none
  | _ => none

theorem Segment.ofJson?_toJson (s : Segment) : Segment.ofJson? s.toJson = some s := by
  rw [Segment.toJson, Json.tagged, Segment.ofJson?, if_pos ⟨rfl, rfl, rfl, rfl⟩,
    Statement.listOfJson?_listToJson, Option.map_some]

/-- The segments that a value lists. -/
def Json.segments? : Json → Option (List Segment)
  | list items => items.mapM Segment.ofJson?
  | _ => none

/-- **The script that JSON text stands for.** -/
def readSegments (text : String) : Option (List Segment) :=
  (Json.ofString? text).bind Json.segments?

theorem readSegments_pretty (width : Nat) (segments : List Segment) :
    readSegments ((Json.list (segments.map Segment.toJson)).pretty width) = some segments := by
  have hsegments : (segments.map Segment.toJson).mapM Segment.ofJson? = some segments := by
    rw [mapM_map_eq_some fun s _ => Segment.ofJson?_toJson s, List.map_id']
  rw [readSegments, Json.ofString?_pretty]
  exact hsegments

theorem scriptJson_of_readScript {name source : String} {segments : List Segment}
    (h : readScript name source = .ok segments) :
    scriptJson name source = .ok ((Json.list (segments.map Segment.toJson)).pretty jsonWidth) := by
  rw [scriptJson, h]
  rfl

/-- **The JSON of a script loses nothing.**  Every script is read back from its JSON, whatever the
width of a level.  So two sources have the same JSON just if the same script is read from them. -/
theorem readSegments_pretty_and_scriptJson_eq_iff :
    (∀ (width : Nat) (segments : List Segment),
      readSegments ((Json.list (segments.map Segment.toJson)).pretty width) = some segments) ∧
    ∀ {name name' source source' : String} {segments segments' : List Segment},
      readScript name source = .ok segments → readScript name' source' = .ok segments' →
      (scriptJson name source = scriptJson name' source' ↔ segments = segments') := by
  refine ⟨readSegments_pretty, fun h h' => ?_⟩
  rw [scriptJson_of_readScript h, scriptJson_of_readScript h']
  constructor
  · intro htexts
    -- Equal texts are read as equal scripts.
    have hread := congrArg readSegments (Except.ok.inj htexts)
    rw [readSegments_pretty, readSegments_pretty] at hread
    exact Option.some.inj hread
  · rintro rfl
    rfl

/-- A choice whose divert is missing, or is a text like any other. -/
def forkScene (target : Option String) : List Segment :=
  [⟨"Hall", [.choice "Go." [] target]⟩]

theorem readScript_forkScene {target : Option String} (htarget : ∀ t ∈ target, IsTarget t)
    (name : String) :
    readScript name (printScript (forkScene target)) = .ok (forkScene target) := by
  have hhall : IsSegmentName "Hall" := by decide
  have hwf : WellFormedScript (forkScene target) := by
    refine ⟨?_, List.forall_mem_nil _, List.forall_mem_singleton.mpr ?_⟩
    · rintro _ ⟨⟩
      exact .inl hhall
    · exact List.forall_mem_singleton.mpr (.choice (List.forall_mem_nil _) htarget)
  exact readScript_eq_ok_iff.mpr hwf.exists_tokens

/-- A missing divert is told from one to `null`. -/
theorem scriptJson_forkScene_ne :
    readScript "none" (printScript (forkScene none)) = .ok (forkScene none) ∧
      readScript "null" (printScript (forkScene (some "null"))) = .ok (forkScene (some "null")) ∧
      readSegments ((Json.list ((forkScene none).map Segment.toJson)).pretty 0) =
        some (forkScene none) ∧
      scriptJson "none" (printScript (forkScene none)) ≠
        scriptJson "null" (printScript (forkScene (some "null"))) := by
  have hnone : readScript "none" (printScript (forkScene none)) = .ok (forkScene none) :=
    readScript_forkScene (by simp) "none"
  have hnull : readScript "null" (printScript (forkScene (some "null"))) =
      .ok (forkScene (some "null")) := by
    refine readScript_forkScene ?_ "null"
    rintro _ ⟨⟩
    decide
  refine ⟨hnone, hnull, readSegments_pretty_and_scriptJson_eq_iff.1 0 _, fun heq => ?_⟩
  have hsame := (readSegments_pretty_and_scriptJson_eq_iff.2 hnone hnull).mp heq
  simp [forkScene] at hsame

end Dialogue
