import Dialogue.Proofs.ProgramLines
import Dialogue.Routine.Code

/-!
# The lines of generated programs

`Action.trees` are the trees that the lines of an action are read as, and `Action.logical_lines`
says so.  The text of every line is taken apart from right to left by the lemmas on `Spells`.  The
lines of a menu are one logical line: its brackets stay open over the records of the choices,
however these are laid out (`Json.absorbed_layout`).
-/

namespace Dialogue

open Text

/-! ### Spelling -/

/-- The atoms of a text that can stand on a line. -/
structure Spells (text : List Char) (as : List Atom) : Prop where
  atoms_eq : atoms text = some as
  isLineText : IsLineText text

namespace Spells

theorem nil : Spells [] [] :=
  ⟨atoms_nil, .nil⟩

variable {rest : List Char} {as : List Atom}

theorem space (h : Spells rest as) : Spells (' ' :: rest) as := by
  have hspace : IsLineText [' '] := by decide
  exact ⟨by rw [atoms_space, h.atoms_eq], hspace.append h.isLineText⟩

/-- Every other character that can stand on a line is a mark. -/
theorem mark (c : Char) (h : Spells rest as) (hmark : (c != ' ' && !Lexer.isWordChar c &&
    c != '"' && c != '\n' && c != '\r') = true := by rfl) :
    Spells (c :: rest) (.mark c :: as) := by
  simp only [Bool.and_eq_true, bne_iff_ne, Bool.not_eq_true', ne_eq] at hmark
  obtain ⟨⟨⟨⟨hspace, hword⟩, hquote⟩, hfeed⟩, hreturn⟩ := hmark
  have hc : IsLineText [c] := by
    apply isLineText_of_forall
    intro d hd
    rw [List.mem_singleton.mp hd]
    exact ⟨hfeed, hreturn⟩
  refine ⟨?_, hc.append h.isLineText⟩
  rw [atoms_mark hspace hword hquote, h.atoms_eq, Option.map_some]

theorem text (value : String) (h : Spells rest as) :
    Spells ((quote value).toList ++ rest) (.text value :: as) := by
  rw [quote, String.toList_ofList]
  have hvalue : IsLineText (Quoted.encode value.toList) :=
    @isLineText_lexeme (.string value) trivial
  refine ⟨?_, hvalue.append h.isLineText⟩
  rw [atoms_encode, h.atoms_eq, String.ofList_toList, Option.map_some]

/-- A word is followed by something that is no word. -/
theorem word (name : String) (h : Spells rest as) (hname : IsSegmentName name := by decide)
    (hstop : rest.head?.any Lexer.isWordChar = false := by rfl) :
    Spells (name.toList ++ rest) (.word name :: as) := by
  have hchars : ∀ c ∈ name.toList, Lexer.isWordChar c = true :=
    fun c hc => Lexer.isWordChar_eq_true_iff.mpr (hname.2 c hc)
  have hrest : ∀ c ∈ rest.head?, Lexer.isWordChar c = false := by
    intro c hc
    rw [hc] at hstop
    exact hstop
  refine ⟨?_, (isLineText_of_isWordChar hname.2).append h.isLineText⟩
  rw [atoms_word hname.1 hchars hrest, h.atoms_eq, String.ofList_toList, Option.map_some]

/-- A line with a text that is spelled. -/
theorem shows {l : Line} (h : Spells rest as) (htext : l.text.toList = rest)
    (hstart : (rest.head? == some ' ') = false := by rfl) : l.Shows as := by
  subst htext
  refine ⟨h.atoms_eq, ?_, h.isLineText⟩
  rintro c hc rfl
  rw [hc] at hstart
  cases hstart

/-- A line without open brackets is a line of its own. -/
theorem logical {l : Line} (width : Nat) (h : Spells rest as) (htext : l.text.toList = rest)
    (hclosed : openBrackets as = 0 := by rfl)
    (hstart : (rest.head? == some ' ') = false := by rfl) :
    Logical width [l] [(l.depth * width, as)] :=
  (h.shows htext hstart).logical hclosed width

end Spells

/-- A text that spells atoms whatever follows it. -/
def Leads (text : List Char) (as : List Atom) : Prop :=
  ∀ rest bs, Spells rest bs → Spells (text ++ rest) (as ++ bs)

/-- Texts with something between them. -/
theorem Leads.intercalate {α : Type} {between : List Char} {marks : List Atom}
    {text : α → List Char} {as : α → List Atom} (hbetween : Leads between marks)
    (htext : ∀ x, Leads (text x) (as x)) :
    (xs : List α) → Leads (between.intercalate (xs.map text)) (marks.intercalate (xs.map as))
  | [], _, _, h => h
  | [x], _, _, h => by
    simp only [List.map_cons, List.map_nil, List.intercalate_singleton]
    exact htext x _ _ h
  | x :: y :: xs, rest, bs, h => by
    have hrest := htext x _ _ (hbetween _ _ (intercalate hbetween htext (y :: xs) rest bs h))
    simpa only [List.map_cons, List.intercalate_cons_cons, List.append_assoc] using hrest

/-! ### Records -/

/-- Lines that add atoms to a line that goes on. -/
structure Absorbed (width : Nat) (ls : List Line) (as : List Atom) : Prop where
  closed : openBrackets as = 0
  joins : ∃ ps, Shown width ls ps ∧ ps.flatMap Prod.snd = as ∧
    ∀ m front rest, 1 ≤ openBrackets front →
      joinLines (some (m, front)) (ps ++ rest) = joinLines (some (m, front ++ as)) rest

namespace Absorbed

variable {width : Nat} {l l' : Line} {ls ls' : List Line} {as bs cs : List Atom}

theorem nil : Absorbed width [] [] := by
  refine ⟨rfl, [], .nil, rfl, fun m front rest _ => ?_⟩
  rw [List.nil_append, List.append_nil]

theorem line (h : l.Shows as) (hclosed : openBrackets as = 0) : Absorbed width [l] as := by
  refine ⟨hclosed, _, .cons h .nil, by simp, fun m front rest hfront =>
    joinLines_pending ?_ m _ rest⟩
  rw [openBrackets_append]
  omega

theorem append (h : Absorbed width ls as) (h' : Absorbed width ls' bs) :
    Absorbed width (ls ++ ls') (as ++ bs) := by
  obtain ⟨hclosed, ps, hshown, rfl, hjoin⟩ := h
  obtain ⟨hclosed', ps', hshown', rfl, hjoin'⟩ := h'
  refine ⟨by rw [openBrackets_append, hclosed, hclosed']; rfl, ps ++ ps', hshown.append hshown',
    List.flatMap_append, fun m front rest hfront => ?_⟩
  have hmid : 1 ≤ openBrackets (front ++ ps.flatMap Prod.snd) := by
    rw [openBrackets_append, hclosed]
    omega
  rw [List.append_assoc, hjoin m front _ hfront, hjoin' m _ rest hmid, List.append_assoc]

/-- Lines between one that opens a bracket and one that closes it. -/
theorem enclose (hopen : l.Shows as) (has : openBrackets as = 1) (h : Absorbed width ls bs)
    (hclose : l'.Shows cs) (hcs : openBrackets cs = -1) :
    Absorbed width (l :: (ls ++ [l'])) (as ++ (bs ++ cs)) := by
  obtain ⟨hclosed, ps, hshown, hatoms, hjoin⟩ := h
  refine ⟨?_, _, .cons hopen (hshown.append (.cons hclose .nil)), by simp [hatoms],
    fun m front rest hfront => ?_⟩
  · rw [openBrackets_append, openBrackets_append]
    omega
  -- one bracket more is open inside, and behind the closing line those of `front` still are
  have hfront' : 1 ≤ openBrackets (front ++ as) := by
    rw [openBrackets_append]
    omega
  have hback : openBrackets (front ++ as ++ bs ++ cs) ≠ 0 := by
    simp only [openBrackets_append]
    omega
  rw [List.cons_append, joinLines_pending (by omega), List.append_assoc, hjoin _ _ _ hfront',
    List.singleton_append, joinLines_pending hback]
  simp only [List.append_assoc]

/-- Lines between one that opens two brackets and one that closes both are a single line. -/
theorem logical (hopen : l.Shows as) (has : openBrackets as = 2) (h : Absorbed width ls bs)
    (hclose : l'.Shows cs) (hcs : openBrackets cs = -2) :
    Logical width (l :: (ls ++ [l'])) [(l.depth * width, as ++ (bs ++ cs))] := by
  obtain ⟨hclosed, ps, hshown, -, hjoin⟩ := h
  refine ⟨_, .cons hopen (hshown.append (.cons hclose .nil)), fun rest => ?_⟩
  have hback : openBrackets (as ++ bs ++ cs) = 0 := by
    simp only [openBrackets_append]
    omega
  rw [List.cons_append, joinLines_open (by omega), List.append_assoc, hjoin _ _ _ (by omega),
    List.singleton_append, joinLines_close hback, List.append_assoc]
  rfl

end Absorbed

/-- What stands in front of a value: nothing, or the name of a field. -/
structure Label (before : String) (bs : List Atom) : Prop where
  leads : Leads before.toList bs
  start : (before.toList.head? == some ' ') = false
  closed : openBrackets bs = 0

theorem label_empty : Label "" [] :=
  ⟨fun _ _ h => h, rfl, rfl⟩

theorem label_key (key : String) : Label (quote key ++ ": ") [.text key, .mark ':'] := by
  refine ⟨fun rest as h => ?_, by simp [quote, Quoted.encode], rfl⟩
  have hspells := Spells.text key (.mark ':' (.space h))
  simpa using hspells

theorem Label.shows {before : String} {bs as : List Atom} {l : Line} {rest : List Char}
    (h : Label before bs) (hrest : Spells rest as) (htext : l.text.toList = before.toList ++ rest)
    (hstart : (rest.head? == some ' ') = false := by rfl) : l.Shows (bs ++ as) := by
  refine (h.leads _ _ hrest).shows htext ?_
  have hbefore := h.start
  cases hcs : before.toList with
  | nil => exact hstart
  | cons c cs =>
    rw [hcs] at hbefore
    exact hbefore

namespace Json

theorem spells_separator (more : Bool) : Spells (separator more).toList (comma more) := by
  cases more with
  | false => exact .nil
  | true => exact .mark ',' .nil

theorem openBrackets_comma (more : Bool) : openBrackets (comma more) = 0 := by
  cases more <;> rfl

theorem absorbed_line {width : Nat} {before : String} {l : Line} {bs as : List Atom}
    {body : List Char} (hlabel : Label before bs) (more : Bool)
    (hspells : Spells (body ++ (separator more).toList) (as ++ comma more))
    (htext : l.text.toList = before.toList ++ (body ++ (separator more).toList))
    (hclosed : openBrackets as = 0 := by rfl)
    (hstart : ((body ++ (separator more).toList).head? == some ' ') = false := by rfl) :
    Absorbed width [l] (bs ++ (as ++ comma more)) := by
  refine .line (hlabel.shows hspells htext hstart) ?_
  rw [openBrackets_append, openBrackets_append, hlabel.closed, hclosed, openBrackets_comma]
  rfl

/-- A value over several lines: `left` and `right` are its brackets. -/
theorem absorbed_block {width depth : Nat} {before : String} {bs as : List Atom} {ls : List Line}
    (hlabel : Label before bs) (more : Bool) (h : Absorbed width ls as) {left right : Char}
    {opening closing : String} (hopening : opening.toList = [left])
    (hclosing : closing.toList = [right]) (hleft : Spells [left] [.mark left])
    (hright : Spells (right :: (separator more).toList) (.mark right :: comma more))
    (hopen : openBrackets [.mark left] = 1 := by rfl)
    (hclose : openBrackets [.mark right] = -1 := by rfl)
    (hstart : ([left].head? == some ' ') = false := by rfl)
    (hstart' : ([right].head? == some ' ') = false := by rfl) :
    Absorbed width (⟨depth, before ++ opening⟩ :: (ls ++ [⟨depth, closing ++ separator more⟩]))
      (bs ++ (.mark left :: (as ++ [.mark right]) ++ comma more)) := by
  have hfirst : Line.Shows ⟨depth, before ++ opening⟩ (bs ++ [.mark left]) :=
    hlabel.shows hleft (by rw [String.toList_append, hopening]) hstart
  have hlast : Line.Shows ⟨depth, closing ++ separator more⟩ (.mark right :: comma more) :=
    hright.shows (by rw [String.toList_append, hclosing, List.singleton_append]) hstart'
  have hfirst' : openBrackets (bs ++ [.mark left]) = 1 := by
    rw [openBrackets_append, hlabel.closed, hopen]
    rfl
  have hlast' : openBrackets (.mark right :: comma more) = -1 := by
    rw [← List.singleton_append, openBrackets_append, hclose, openBrackets_comma]
    rfl
  simpa using Absorbed.enclose hfirst hfirst' h hlast hlast'

mutual

/-- **The lines of a value add its atoms to a line that goes on**, whatever label the value has. -/
theorem absorbed_layout (width : Nat) : (v : Json) → (depth : Nat) → {before : String} →
    {bs : List Atom} → Label before bs → (more : Bool) →
    Absorbed width (v.layout depth before (separator more)) (bs ++ (v.atoms ++ comma more))
  | null, depth, before, bs, hlabel, more => by
    have hspells := (spells_separator more).word "null" (by decide) (by cases more <;> rfl)
    rw [layout, atoms]
    exact absorbed_line hlabel more hspells (by simp)
  | text value, depth, before, bs, hlabel, more => by
    have hspells := (spells_separator more).text value
    rw [layout, atoms]
    exact absorbed_line hlabel more hspells (by simp) rfl (by simp [quote, Quoted.encode])
  | list [], depth, before, bs, hlabel, more => by
    have hspells : Spells (['[', ']'] ++ (separator more).toList)
        ([.mark '[', .mark ']'] ++ comma more) := ((spells_separator more).mark ']').mark '['
    rw [layout, atoms]
    exact absorbed_line hlabel more hspells (by simp)
  | list (item :: items), depth, before, bs, hlabel, more => by
    have hitems := absorbed_layoutItems width (item :: items) (depth + 1)
    rw [layout, atoms]
    exact absorbed_block hlabel more hitems (by simp) (by simp) (.mark '[' .nil)
      (.mark ']' (spells_separator more))
  | record [], depth, before, bs, hlabel, more => by
    have hspells : Spells (['\x7b', '\x7d'] ++ (separator more).toList)
        ([.mark '\x7b', .mark '\x7d'] ++ comma more) :=
      ((spells_separator more).mark '\x7d').mark '\x7b'
    rw [layout, atoms]
    exact absorbed_line hlabel more hspells (by simp)
  | record (field :: fields), depth, before, bs, hlabel, more => by
    have hfields := absorbed_layoutFields width (field :: fields) (depth + 1)
    rw [layout, atoms]
    exact absorbed_block hlabel more hfields (by simp) (by simp) (.mark '\x7b' .nil)
      (.mark '\x7d' (spells_separator more))

theorem absorbed_layoutItems (width : Nat) : (items : List Json) → (depth : Nat) →
    Absorbed width (layoutItems depth items) (itemsAtoms items)
  | [], _ => .nil
  | item :: items, depth => by
    have hitem := absorbed_layout width item depth label_empty (!items.isEmpty)
    rw [layoutItems, itemsAtoms]
    exact hitem.append (absorbed_layoutItems width items depth)

theorem absorbed_layoutFields (width : Nat) : (fields : List (String × Json)) → (depth : Nat) →
    Absorbed width (layoutFields depth fields) (fieldsAtoms fields)
  | [], _ => .nil
  | (key, value) :: fields, depth => by
    have hvalue := absorbed_layout width value depth (label_key key) (!fields.isEmpty)
    rw [layoutFields, fieldsAtoms]
    exact hvalue.append (absorbed_layoutFields width fields depth)

end

end Json

/-! ### Actions -/

/-- The atoms of a condition. -/
def conditionAtoms (condition : String) : List Atom :=
  [.word "eval_cond", .mark '(', .text condition, .mark ')']

/-- The atoms of items, a comma behind each. -/
def Json.listedAtoms : List Json → List Atom
  | [] => []
  | item :: items => item.atoms ++ .mark ',' :: listedAtoms items

namespace Action

/-- An action whose lines can be read: no code, and in menus only choices. -/
inductive Readable : Action → Prop
  | say {actor : String} (line : String) : IsSegmentName actor → Readable (.say actor line)
  | leave (target : String) : Readable (.leave target)
  | call (name : String) (args : List String) : Readable (.call name args)
  | menu (slot : Nat) {choices : List Statement} : (∀ c ∈ choices, c.isChoice = true) →
      Readable (.menu slot choices)
  | branch {conditions : List String} {consequent alternate : List Action} : conditions ≠ [] →
      (∀ a ∈ consequent, Readable a) → (∀ a ∈ alternate, Readable a) →
      Readable (.branch conditions consequent alternate)

/-- The atoms of a menu, from the variable that its answer goes to. -/
def menuAtoms (slot : Nat) (choices : List Statement) : List Atom :=
  [.word "var", .word (variableName slot), .mark '=', .word "yield", .word "menu", .mark '(',
    .mark '['] ++ (Json.listedAtoms (choices.map Statement.toJson) ++ [.mark ']', .mark ')'])

/-- The trees of a block, or that of `pass`. -/
def orPassTrees (indent : Nat) (trees : List Tree) : List Tree :=
  if trees.isEmpty then [.node indent [.word "pass"] []] else trees

mutual

/-- The trees that the lines of an action are read as. -/
def trees (width depth : Nat) : Action → List Tree
  | say actor line =>
    [.node (depth * width)
      [.word "sayLine", .mark '(', .word actor, .mark ',', .text line, .mark ')'] []]
  | leave target => [.node (depth * width) [.word "return", .text target] []]
  | call name args =>
    [.node (depth * width)
      ([.word "call_macro", .mark '(', .text name, .mark ','] ++
        ((Json.ofTexts args).atoms ++ [.mark ')'])) []]
  | code _ => []
  | menu slot choices =>
    [.node (depth * width) (menuAtoms slot choices) [],
     .node (depth * width)
      [.word "if", .word (variableName slot), .mark '!', .mark '=', .word "null", .mark ':']
      [.node ((depth + 1) * width) [.word "return", .word (variableName slot)] []]]
  | branch conditions consequent alternate =>
    .node (depth * width)
      (.word "if" :: ([.mark '&', .mark '&'].intercalate (conditions.map conditionAtoms) ++
        [.mark ':']))
      (orPassTrees ((depth + 1) * width) (listTrees width (depth + 1) consequent)) ::
      if alternate.isEmpty then []
      else [.node (depth * width) [.word "else", .mark ':'] (listTrees width (depth + 1) alternate)]

/-- The trees of actions, one after the other. -/
def listTrees (width depth : Nat) : List Action → List Tree
  | [] => []
  | action :: rest => trees width depth action ++ listTrees width depth rest

end

end Action

theorem isSegmentName_variableName (slot : Nat) : IsSegmentName (Action.variableName slot) := by
  have hchars : (Action.variableName slot).toList =
      "__genvar_".toList ++ Nat.toDigits 10 slot := by
    rw [Action.variableName, String.toList_append, Nat.toList_repr]
  rw [IsSegmentName, hchars]
  refine ⟨by simp, fun c hc => ?_⟩
  rcases List.mem_append.mp hc with hc | hc
  · exact (show IsSegmentName "__genvar_" by decide).2 c hc
  · have hdigit : c.isDigit = true := Nat.isDigit_of_mem_toDigits (by decide) (by decide) hc
    exact .inl (by rw [Char.isAlphanum, hdigit, Bool.or_true])

theorem openBrackets_intercalate {marks : List Atom} (hmarks : openBrackets marks = 0) :
    (xs : List (List Atom)) → (∀ as ∈ xs, openBrackets as = 0) →
    openBrackets (marks.intercalate xs) = 0
  | [], _ => rfl
  | [as], h => by
    rw [List.intercalate_singleton]
    exact h as List.mem_cons_self
  | as :: bs :: xs, h => by
    have hrest := openBrackets_intercalate hmarks (bs :: xs) fun as' has' =>
      h as' (List.mem_cons_of_mem as has')
    rw [List.intercalate_cons_cons, openBrackets_append, openBrackets_append, hmarks, hrest,
      h as List.mem_cons_self]
    rfl

theorem Json.openBrackets_atoms (v : Json) : openBrackets v.atoms = 0 := by
  -- what lines add to a line that goes on is closed in itself
  have hclosed := (absorbed_layout 0 v 0 label_empty false).closed
  rwa [List.nil_append, comma, if_neg Bool.false_ne_true, List.append_nil] at hclosed

theorem Json.itemsAtoms_map_text : (texts : List String) →
    itemsAtoms (texts.map .text) = [.mark ','].intercalate (texts.map fun t => [.text t])
  | [] => rfl
  | [_] => rfl
  | t :: t' :: texts => by
    rw [List.map_cons, itemsAtoms, itemsAtoms_map_text (t' :: texts)]
    rfl

theorem leads_condition (condition : String) :
    Leads ("eval_cond(" ++ quote condition ++ ")").toList (conditionAtoms condition) := by
  intro rest as h
  have hspells := Spells.word "eval_cond" (.mark '(' (.text condition (.mark ')' h)))
  simpa [conditionAtoms] using hspells

theorem leads_test (conditions : List String) : Leads (Action.test conditions).toList
    ([.mark '&', .mark '&'].intercalate (conditions.map conditionAtoms)) := by
  have hand : Leads " && ".toList [.mark '&', .mark '&'] :=
    fun _ _ h => ((h.space.mark '&').mark '&').space
  have htest := Leads.intercalate hand leads_condition conditions
  rw [Action.test, String.toList_intercalate, List.map_map]
  exact htest

theorem leads_args (args : List String) : Leads (",".intercalate (args.map quote)).toList
    (Json.itemsAtoms (args.map .text)) := by
  have hcomma : Leads ",".toList [.mark ','] := fun _ _ h => h.mark ','
  have hquote : ∀ arg, Leads (quote arg).toList [.text arg] := fun arg _ _ h => h.text arg
  have hargs := Leads.intercalate hcomma hquote args
  rw [String.toList_intercalate, List.map_map, Json.itemsAtoms_map_text]
  exact hargs

theorem absorbed_choiceLines (width depth : Nat) (choices : List Statement) :
    Absorbed width (Action.choiceLines depth choices)
      (Json.listedAtoms (choices.map Statement.toJson)) := by
  induction choices with
  | nil => exact .nil
  | cons choice rest ih =>
    have hchoice := Json.absorbed_layout width choice.toJson depth label_empty true
    have hall := hchoice.append ih
    rw [Action.choiceLines, List.map_cons, Json.listedAtoms]
    simpa [Json.comma, Json.separator] using hall

theorem logical_return_text (width depth : Nat) (label : String) :
    Logical width [⟨depth, "return " ++ quote label⟩]
      [(depth * width, [.word "return", .text label])] := by
  have hspells := Spells.word "return" (.space (.text label .nil))
  exact hspells.logical width (by simp)

theorem logical_return_word (width depth : Nat) {name : String} (hname : IsSegmentName name) :
    Logical width [⟨depth, "return " ++ name⟩] [(depth * width, [.word "return", .word name])] := by
  have hspells := Spells.word "return" (.space (.word name .nil hname))
  exact hspells.logical width (by simp)

theorem logical_menuLines (width depth slot : Nat) (choices : List Statement) :
    Logical width (Action.menuLines depth slot choices)
      (Tree.listLines (Action.trees width depth (.menu slot choices))) := by
  have hname := isSegmentName_variableName slot
  have hyield := Spells.mark '=' (.space (.word "yield" (.space (.word "menu" (.mark '('
    (.mark '[' .nil))))))
  have hopen : Line.Shows ⟨depth, "var " ++ Action.variableName slot ++ " = yield menu(["⟩
      [.word "var", .word (Action.variableName slot), .mark '=', .word "yield", .word "menu",
        .mark '(', .mark '['] :=
    Spells.shows (.word "var" (.space (.word (Action.variableName slot) (.space hyield) hname)))
      (by simp)
  have hclose : Line.Shows ⟨depth, "])"⟩ [.mark ']', .mark ')'] :=
    Spells.shows (.mark ']' (.mark ')' .nil)) (by simp)
  have htest := Spells.word "if" (.space (.word (Action.variableName slot) (.space (.mark '!'
    (.mark '=' (.space (.word "null" (.mark ':' .nil)))))) hname))
  -- both brackets of `menu([` stay open until `])`
  have hmenu := Absorbed.logical hopen rfl (absorbed_choiceLines width (depth + 1) choices) hclose
    rfl
  have hif : Logical width [⟨depth, "if " ++ Action.variableName slot ++ " != null:"⟩] _ :=
    htest.logical width (by simp)
  have hall := hmenu.append (hif.append (logical_return_word width (depth + 1) hname))
  simpa [Action.menuLines, Action.trees, Action.menuAtoms, Tree.listLines, Tree.lines] using hall

theorem logical_call (width depth : Nat) (name : String) (args : List String) :
    Logical width ((Action.call name args).lines depth)
      (Tree.listLines ((Action.call name args).trees width depth)) := by
  have hargs := leads_args args _ _ (.mark ']' (.mark ')' .nil))
  have hspells := Spells.word "call_macro" (.mark '(' (.text name (.mark ',' (.space
    (.mark '[' hargs)))))
  -- the brackets of the list belong to the value that is read
  have hatoms : Json.itemsAtoms (args.map .text) ++ [.mark ']', .mark ')'] =
      Json.itemsAtoms (args.map .text) ++ [.mark ']'] ++ [.mark ')'] := by
    rw [List.append_assoc, List.singleton_append]
  rw [hatoms] at hspells
  have hclosed : openBrackets ([.word "call_macro", .mark '(', .text name, .mark ','] ++
      ((Json.ofTexts args).atoms ++ [.mark ')'])) = 0 := by
    rw [openBrackets_append, openBrackets_append, Json.openBrackets_atoms]
    rfl
  exact hspells.logical width (by simp) hclosed

theorem logical_if (width depth : Nat) (conditions : List String) :
    Logical width [⟨depth, "if " ++ Action.test conditions ++ ":"⟩]
      [(depth * width, .word "if" :: ([.mark '&', .mark '&'].intercalate
        (conditions.map conditionAtoms) ++ [.mark ':']))] := by
  have hspells := Spells.word "if" (.space (leads_test conditions _ _ (.mark ':' .nil)))
  have hconditions : openBrackets ([.mark '&', .mark '&'].intercalate
      (conditions.map conditionAtoms)) = 0 := by
    apply openBrackets_intercalate rfl
    intro as has
    obtain ⟨condition, -, rfl⟩ := List.mem_map.mp has
    rfl
  refine hspells.logical width (by simp) ?_
  rw [← List.singleton_append, openBrackets_append, openBrackets_append, hconditions]
  rfl

namespace Action

theorem lines_ne_nil (depth : Nat) (a : Action) : a.lines depth ≠ [] := by
  cases a <;> simp [lines, menuLines]

theorem Readable.trees_ne_nil {a : Action} (h : a.Readable) (width depth : Nat) :
    a.trees width depth ≠ [] := by
  cases h <;> simp [trees]

/-- A block that has no lines has no trees, so both are replaced by `pass` at once. -/
theorem logical_orPass {width depth : Nat} {actions : List Action}
    (hactions : ∀ a ∈ actions, a.Readable)
    (h : Logical width (listLines depth actions) (Tree.listLines (listTrees width depth actions))) :
    Logical width (orPass depth (listLines depth actions))
      (Tree.listLines (orPassTrees (depth * width) (listTrees width depth actions))) := by
  cases actions with
  | nil => exact Spells.logical width (.word "pass" .nil) (by simp)
  | cons a rest =>
    have hlines : (listLines depth (a :: rest)).isEmpty = false := by
      simp [listLines, lines_ne_nil]
    have htrees : (listTrees width depth (a :: rest)).isEmpty = false := by
      simp [listTrees, (hactions a List.mem_cons_self).trees_ne_nil]
    rw [orPass, orPassTrees, hlines, htrees]
    exact h

mutual

/-- **The lines of an action are those of its trees.** -/
theorem logical_lines (width : Nat) : (a : Action) → a.Readable → (depth : Nat) →
    Logical width (a.lines depth) (Tree.listLines (a.trees width depth))
  | say actor line, h, depth => by
    cases h with
    | say _ hactor =>
      have hspells := Spells.word "sayLine" (.mark '(' (.word actor (.mark ',' (.space
        (.text line (.mark ')' .nil)))) hactor))
      exact hspells.logical width (by simp)
  | leave target, _, depth => logical_return_text width depth target
  | call name args, _, depth => logical_call width depth name args
  | code _, h, _ => nomatch h
  | menu slot choices, _, depth => logical_menuLines width depth slot choices
  | branch conditions consequent alternate, h, depth => by
    cases h with
    | branch hconditions hconsequent halternate =>
      have hyes := logical_orPass hconsequent
        (logical_listLines width consequent hconsequent (depth + 1))
      have hthen := (logical_if width depth conditions).append hyes
      cases alternate with
      | nil => simpa [lines, trees, Tree.listLines, Tree.lines] using hthen
      | cons a rest =>
        have hno := logical_listLines width (a :: rest) halternate (depth + 1)
        have helse : Logical width [⟨depth, "else:"⟩]
            [(depth * width, [.word "else", .mark ':'])] :=
          Spells.logical width (.word "else" (.mark ':' .nil)) (by simp)
        have hall := hthen.append (helse.append hno)
        simpa [lines, trees, Tree.listLines, Tree.lines] using hall

theorem logical_listLines (width : Nat) : (actions : List Action) →
    (∀ a ∈ actions, a.Readable) → (depth : Nat) →
    Logical width (listLines depth actions) (Tree.listLines (listTrees width depth actions))
  | [], _, _ => .nil width
  | a :: rest, h, depth => by
    have ha := logical_lines width a (h a List.mem_cons_self) depth
    have hrest := logical_listLines width rest
      (fun a' ha' => h a' (List.mem_cons_of_mem a ha')) depth
    rw [listLines, listTrees, Tree.listLines_append]
    exact ha.append hrest

end

end Action

/-! ### Routines -/

theorem isSegmentName_entryName {name : String} (h : ∀ c ∈ name.toList, IsWordChar c) :
    IsSegmentName (Routine.entryName name) := by
  rw [IsSegmentName, Routine.entryName, String.toList_append]
  refine ⟨by simp, fun c hc => ?_⟩
  rcases List.mem_append.mp hc with hc | hc
  · exact (show IsSegmentName "__knot__" by decide).2 c hc
  · exact h c hc

theorem logical_empty (width : Nat) : Logical width [.empty, .empty] [(0, []), (0, [])] := by
  have hempty : Logical width [.empty] [(0 * width, [])] :=
    Spells.logical width .nil (by simp [Line.empty])
  rw [Nat.zero_mul] at hempty
  exact hempty.append hempty

namespace Routine

/-- The trees of the line by which a routine ends. -/
def exitTrees (width : Nat) : Exit → List Tree
  | .diverted => []
  | .next name => [.node (1 * width) [.word "return", .text name] []]
  | .stop => [.node (1 * width) [.word "return", .word "null"] []]

/-- The tree of a routine. -/
def tree (width : Nat) (r : Routine) : Tree :=
  .node 0 [.word "func", .word (entryName r.name), .mark '(', .mark ')', .mark '-', .mark '>',
      .word "String", .mark ':']
    (Action.orPassTrees (1 * width) (Action.listTrees width 1 r.body) ++ exitTrees width r.exit)

theorem logical_exitLines (width : Nat) (exit : Exit) :
    Logical width (exitLines exit) (Tree.listLines (exitTrees width exit)) := by
  cases exit with
  | diverted => exact .nil width
  | next name => exact logical_return_text width 1 name
  | stop => exact Spells.logical width (.word "return" (.space (.word "null" .nil))) (by simp)

theorem logical_header (width : Nat) {name : String} (hname : ∀ c ∈ name.toList, IsWordChar c) :
    Logical width [⟨0, "func " ++ entryName name ++ "() -> String:"⟩]
      [(0 * width, [.word "func", .word (entryName name), .mark '(', .mark ')', .mark '-',
        .mark '>', .word "String", .mark ':'])] := by
  have hspells := Spells.word "func" (.space (.word (entryName name) (.mark '(' (.mark ')'
    (.space (.mark '-' (.mark '>' (.space (.word "String" (.mark ':' .nil))))))))
    (isSegmentName_entryName hname)))
  exact hspells.logical width (by simp)

/-- **The lines of a routine are those of its tree**, up to empty ones. -/
theorem logical_lines {width : Nat} {r : Routine} (hname : ∀ c ∈ r.name.toList, IsWordChar c)
    (hbody : ∀ a ∈ r.body, a.Readable) :
    Logical width r.lines ((r.tree width).lines ++ [(0, []), (0, [])]) := by
  have hblock := Action.logical_orPass hbody (Action.logical_listLines width r.body hbody 1)
  have hall := (logical_header width hname).append
    ((hblock.append (logical_exitLines width r.exit)).append (logical_empty width))
  simpa [lines, tree, Tree.lines, Tree.listLines_append] using hall

/-- The trees of the cases of the dispatcher. -/
def caseTrees (width : Nat) : List String → List Tree
  | [] => []
  | name :: rest =>
    .node (3 * width) [.text name, .mark ':']
      [.node (4 * width) [.word "state", .mark '=', .word "yield", .word (entryName name),
        .mark '(', .mark ')'] []] :: caseTrees width rest

/-- The tree of the dispatcher. -/
def dispatcherTree (width : Nat) (names : List String) : Tree :=
  .node 0 mainAtoms
    [.node (1 * width) [.word "var", .word "state", .mark '=', .word "init_state"] [],
     .node (1 * width) [.word "while", .word "state", .mark '!', .mark '=', .word "null", .mark ':']
      [.node (2 * width) [.word "match", .word "state", .mark ':'] (caseTrees width names)]]

theorem logical_caseLines (width : Nat) (names : List String)
    (hnames : ∀ name ∈ names, ∀ c ∈ name.toList, IsWordChar c) :
    Logical width (caseLines names) (Tree.listLines (caseTrees width names)) := by
  induction names with
  | nil => exact .nil width
  | cons name rest ih =>
    have hname := isSegmentName_entryName (hnames name List.mem_cons_self)
    have hcase : Logical width [⟨3, quote name ++ ":"⟩] _ :=
      Spells.logical width (.text name (.mark ':' .nil)) (by simp) rfl
        (by simp [quote, Quoted.encode])
    have hspells := Spells.word "state" (.space (.mark '=' (.space (.word "yield" (.space
      (.word (entryName name) (.mark '(' (.mark ')' .nil)) hname))))))
    have hstate : Logical width [⟨4, "state = yield " ++ entryName name ++ "()"⟩] _ :=
      hspells.logical width (by simp)
    have hrest := ih fun name' hname' => hnames name' (List.mem_cons_of_mem name hname')
    have hall := (hcase.append hstate).append hrest
    simpa [caseLines, caseTrees, Tree.listLines, Tree.lines] using hall

/-- **The lines of the dispatcher are those of its tree**, up to empty ones. -/
theorem logical_dispatcherLines (width : Nat) {names : List String}
    (hnames : ∀ name ∈ names, ∀ c ∈ name.toList, IsWordChar c) :
    Logical width (dispatcherLines names)
      ((dispatcherTree width names).lines ++ [(0, []), (0, [])]) := by
  have hmain : Logical width [⟨0, "func main(init_state):"⟩] [(0 * width, mainAtoms)] :=
    Spells.logical width (.word "func" (.space (.word "main" (.mark '(' (.word "init_state"
      (.mark ')' (.mark ':' .nil))))))) (by simp)
  have hvar : Logical width [⟨1, "var state = init_state"⟩] _ :=
    Spells.logical width (.word "var" (.space (.word "state" (.space (.mark '=' (.space
      (.word "init_state" .nil))))))) (by simp)
  have hwhile : Logical width [⟨1, "while state != null:"⟩] _ :=
    Spells.logical width (.word "while" (.space (.word "state" (.space (.mark '!' (.mark '='
      (.space (.word "null" (.mark ':' .nil))))))))) (by simp)
  have hmatch : Logical width [⟨2, "match state:"⟩] _ :=
    Spells.logical width (.word "match" (.space (.word "state" (.mark ':' .nil)))) (by simp)
  have hhead := hmain.append (hvar.append (hwhile.append hmatch))
  have hall := (hhead.append (logical_caseLines width names hnames)).append (logical_empty width)
  simpa [dispatcherLines, dispatcherTree, Tree.listLines, Tree.lines] using hall

end Routine

end Dialogue
