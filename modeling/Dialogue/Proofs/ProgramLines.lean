import Dialogue.Json
import Dialogue.Proofs.ProgramText

/-!
# Lines of a program

What becomes of lines when they are read as the text of a program.  `Shown` are the atoms of lines,
each with its indentation, and `Logical` the lines that are left when those that go on have been put
together.  Both are stated so that lines can be looked at piece by piece (`Logical.append`).

Indentation is undone by `forest_listLines`: trees whose children are indented deeper than they are
themselves are read back from their lines.
-/

namespace Dialogue

open Text

/-! ### Rendered lines -/

/-- The atoms of a line, which can stand on a line by itself and starts with no space. -/
structure Line.Shows (l : Line) (as : List Atom) : Prop where
  atoms_eq : atoms l.text.toList = some as
  start : ∀ c ∈ l.text.toList.head?, c ≠ ' '
  isLineText : IsLineText l.text.toList

theorem atoms_spaces (n : Nat) (cs : List Char) :
    atoms (List.replicate n ' ' ++ cs) = atoms cs := by
  induction n with
  | zero => rfl
  | succ n ih => rw [List.replicate_succ, List.cons_append, atoms_space, ih]

theorem Line.toList_render (width : Nat) (l : Line) :
    (l.render width).toList = List.replicate (l.depth * width) ' ' ++ l.text.toList := by
  rw [Line.render, String.toList_append, String.toList_ofList]

/-- A rendered line is indented by its depth, if its text starts with no space. -/
theorem Line.length_takeWhile_render {l : Line} (h : ∀ c ∈ l.text.toList.head?, c ≠ ' ')
    (width : Nat) : ((l.render width).toList.takeWhile (· == ' ')).length = l.depth * width := by
  have hspaces : ∀ c ∈ List.replicate (l.depth * width) ' ', (c == ' ') = true := by
    intro c hc
    rw [(List.mem_replicate.mp hc).2]
    rfl
  have hstart : ∀ c ∈ l.text.toList.head?, (c == ' ') = false :=
    fun c hc => beq_eq_false_iff_ne.mpr (h c hc)
  rw [Line.toList_render, (Lexer.takeWhile_append_of_stop hspaces hstart).1,
    List.length_replicate]

theorem Line.Shows.readLine_render {l : Line} {as : List Atom} (h : l.Shows as) (width : Nat) :
    readLine (l.render width).toList = some (l.depth * width, as) := by
  rw [readLine, Line.length_takeWhile_render h.start, Line.toList_render, atoms_spaces, h.atoms_eq,
    Option.map_some]

theorem Line.Shows.isLineText_render {l : Line} {as : List Atom} (h : l.Shows as) (width : Nat) :
    IsLineText (l.render width).toList := by
  have hspaces : IsLineText (List.replicate (l.depth * width) ' ') := by
    apply isLineText_of_forall
    intro c hc
    rw [(List.mem_replicate.mp hc).2]
    decide
  rw [Line.toList_render]
  exact hspaces.append h.isLineText

/-- The atoms of lines, each with its indentation. -/
inductive Shown (width : Nat) : List Line → List (Nat × List Atom) → Prop
  | nil : Shown width [] []
  | cons {l : Line} {as : List Atom} {ls : List Line} {ps : List (Nat × List Atom)} : l.Shows as →
      Shown width ls ps → Shown width (l :: ls) ((l.depth * width, as) :: ps)

theorem Shown.append {width : Nat} {ls ls' : List Line} {ps ps' : List (Nat × List Atom)}
    (h : Shown width ls ps) (h' : Shown width ls' ps') : Shown width (ls ++ ls') (ps ++ ps') := by
  induction h with
  | nil => exact h'
  | cons hl _ ih => exact .cons hl ih

theorem Shown.isLineText_of_mem {width : Nat} {ls : List Line} {ps : List (Nat × List Atom)}
    (h : Shown width ls ps) : ∀ t ∈ ls.map (fun l => (l.render width).toList), IsLineText t := by
  induction h with
  | nil => nofun
  | cons hshows _ ih => exact List.forall_mem_cons.mpr ⟨hshows.isLineText_render width, ih⟩

theorem Shown.mapM_render {width : Nat} {ls : List Line} {ps : List (Nat × List Atom)}
    (h : Shown width ls ps) :
    (ls.map fun l => (l.render width).toList).mapM readLine = some ps := by
  induction h with
  | nil => rfl
  | cons hshows _ ih =>
    rw [List.map_cons, List.mapM_cons, hshows.readLine_render, ih]
    rfl

theorem Line.toList_terminated (width : Nat) (ls : List Line) :
    (Line.terminated width ls).toList =
      (ls.map fun l => (l.render width).toList).flatMap fun t => t ++ ['\n'] := by
  simp [Line.terminated, String.toList_join, List.flatMap_map]

/-- **The lines of a text are read as they were shown.** -/
theorem Shown.mapM_readLine {width : Nat} {ls : List Line} {ps : List (Nat × List Atom)}
    (h : Shown width ls ps) :
    (Text.lines (Line.terminated width ls).toList).mapM readLine = some ps := by
  rw [Line.toList_terminated, Text.lines_flatMap h.isLineText_of_mem, h.mapM_render]

/-! ### Lines that go on -/

theorem openBrackets_append (as bs : List Atom) :
    openBrackets (as ++ bs) = openBrackets as + openBrackets bs := by
  induction as with
  | nil => rw [List.nil_append, openBrackets, Int.zero_add]
  | cons a as ih => rw [List.cons_append, openBrackets, ih, openBrackets, Int.add_assoc]

theorem joinLines_balanced {as : List Atom} (h : openBrackets as = 0) (n : Nat)
    (rest : List (Nat × List Atom)) :
    joinLines none ((n, as) :: rest) = (joinLines none rest).map ((n, as) :: ·) := by
  rw [joinLines, if_pos h]

theorem joinLines_open {as : List Atom} (h : openBrackets as ≠ 0) (n : Nat)
    (rest : List (Nat × List Atom)) :
    joinLines none ((n, as) :: rest) = joinLines (some (n, as)) rest := by
  rw [joinLines, if_neg h]

theorem joinLines_pending {front as : List Atom} (h : openBrackets (front ++ as) ≠ 0) (m n : Nat)
    (rest : List (Nat × List Atom)) :
    joinLines (some (m, front)) ((n, as) :: rest) = joinLines (some (m, front ++ as)) rest := by
  rw [joinLines, if_neg h]

theorem joinLines_close {front as : List Atom} (h : openBrackets (front ++ as) = 0) (m n : Nat)
    (rest : List (Nat × List Atom)) :
    joinLines (some (m, front)) ((n, as) :: rest) =
      (joinLines none rest).map ((m, front ++ as) :: ·) := by
  rw [joinLines, if_pos h]

/-- The lines that are left of lines when those that go on have been put together. -/
def Logical (width : Nat) (ls : List Line) (out : List (Nat × List Atom)) : Prop :=
  ∃ ps, Shown width ls ps ∧
    ∀ rest, joinLines none (ps ++ rest) = (joinLines none rest).map (out ++ ·)

theorem Logical.nil (width : Nat) : Logical width [] [] := by
  refine ⟨[], .nil, fun rest => ?_⟩
  simp

theorem Logical.append {width : Nat} {ls ls' : List Line} {out out' : List (Nat × List Atom)}
    (h : Logical width ls out) (h' : Logical width ls' out') :
    Logical width (ls ++ ls') (out ++ out') := by
  obtain ⟨ps, hshown, hjoin⟩ := h
  obtain ⟨ps', hshown', hjoin'⟩ := h'
  refine ⟨ps ++ ps', hshown.append hshown', fun rest => ?_⟩
  rw [List.append_assoc, hjoin, hjoin']
  cases joinLines none rest with
  | none => rfl
  | some lines => simp

/-- A line without open brackets stays as it is. -/
theorem Line.Shows.logical {l : Line} {as : List Atom} (h : l.Shows as)
    (hclosed : openBrackets as = 0) (width : Nat) : Logical width [l] [(l.depth * width, as)] :=
  ⟨_, .cons h .nil, fun rest => joinLines_balanced hclosed _ rest⟩

/-- The lines of a whole text. -/
theorem Logical.joinLines_eq {width : Nat} {ls : List Line} {out : List (Nat × List Atom)}
    (h : Logical width ls out) :
    ∃ ps, (Text.lines (Line.terminated width ls).toList).mapM readLine = some ps ∧
      joinLines none ps = some out := by
  obtain ⟨ps, hshown, hjoin⟩ := h
  refine ⟨ps, hshown.mapM_readLine, ?_⟩
  have hall := hjoin []
  rw [List.append_nil] at hall
  rw [hall]
  simp [joinLines]

/-! ### Indentation -/

namespace Tree

mutual

/-- The lines of a tree. -/
def lines : Tree → List (Nat × List Atom)
  | node n as children => (n, as) :: listLines children

/-- The lines of trees, one after the other. -/
def listLines : List Tree → List (Nat × List Atom)
  | [] => []
  | t :: ts => lines t ++ listLines ts

end

/-- A tree at indentation `n` that starts with no blank line and whose children are indented deeper,
and so on. -/
inductive Laid : Nat → Tree → Prop
  | node {n m : Nat} {as : List Atom} {children : List Tree} : as ≠ [] → n < m →
      (∀ t ∈ children, Laid m t) → Laid n (.node n as children)

theorem laid_leaf {as : List Atom} (h : as ≠ []) (n : Nat) : Laid n (.node n as []) :=
  .node h (Nat.lt_succ_self n) nofun

theorem Laid.children {n n' : Nat} {as : List Atom} {children : List Tree}
    (h : Laid n (.node n' as children)) : ∃ m, n < m ∧ ∀ t ∈ children, Laid m t := by
  cases h with
  | node _ hlt hchildren => exact ⟨_, hlt, hchildren⟩

theorem Laid.indent_eq {n : Nat} {t : Tree} (h : Laid n t) : t.indent = n := by
  cases h
  rfl

theorem aligned_of_laid {n : Nat} {ts : List Tree} (h : ∀ t ∈ ts, Laid n t) :
    aligned ts = true := by
  cases ts with
  | nil => rfl
  | cons t ts =>
    rw [aligned, List.all_eq_true]
    intro t' ht'
    rw [(h t' (List.mem_cons_of_mem t ht')).indent_eq, (h t List.mem_cons_self).indent_eq,
      beq_self_eq_true]

theorem listLines_append (ts ts' : List Tree) :
    listLines (ts ++ ts') = listLines ts ++ listLines ts' := by
  induction ts with
  | nil => rfl
  | cons t ts ih => rw [List.cons_append, listLines, ih, listLines, List.append_assoc]

mutual

theorem Laid.not_isEmpty : (t : Tree) → (n : Nat) → Laid n t →
    ∀ line ∈ t.lines, (!line.2.isEmpty) = true
  | .node _ as children, n, h, line, hline => by
    cases h with
    | node has _ hchildren =>
      rcases List.mem_cons.mp hline with rfl | hline
      · simpa using has
      · exact Laid.list_not_isEmpty children _ hchildren line hline

theorem Laid.list_not_isEmpty : (ts : List Tree) → (n : Nat) → (∀ t ∈ ts, Laid n t) →
    ∀ line ∈ listLines ts, (!line.2.isEmpty) = true
  | t :: ts, n, h, line, hline => by
    rcases List.mem_append.mp hline with hline | hline
    · exact Laid.not_isEmpty t n (h t List.mem_cons_self) line hline
    · exact Laid.list_not_isEmpty ts n (fun t' ht' => h t' (List.mem_cons_of_mem t ht')) line hline

end

mutual

theorem forest_lines : (t : Tree) → (n : Nat) → Laid n t → (rest : List (Nat × List Atom)) →
    (roots : List Tree) → forest rest = some roots → (∀ r ∈ roots.head?, r.indent ≤ n) →
    forest (t.lines ++ rest) = some (t :: roots)
  | node n' as children, n, h, rest, roots, hrest, hroots => by
    have hn : n' = n := h.indent_eq
    obtain ⟨m, hlt, hchildren⟩ := h.children
    have hforest := forest_listLines children m hchildren rest roots hrest
      fun r hr => Nat.le_trans (hroots r hr) (Nat.le_of_lt hlt)
    have hdeeper : ∀ t ∈ children, decide (n' < t.indent) = true := by
      intro t ht
      rw [(hchildren t ht).indent_eq, hn]
      exact decide_eq_true hlt
    have hstop : ∀ r ∈ roots.head?, decide (n' < r.indent) = false := by
      intro r hr
      rw [hn]
      exact decide_eq_false (Nat.not_lt.mpr (hroots r hr))
    obtain ⟨htake, hdrop⟩ := Lexer.takeWhile_append_of_stop hdeeper hstop
    rw [lines, List.cons_append, forest, hforest]
    simp only [htake, hdrop, aligned_of_laid hchildren, if_true]

/-- **Trees are read back from their lines**, if what follows is indented no deeper. -/
theorem forest_listLines : (ts : List Tree) → (n : Nat) → (∀ t ∈ ts, Laid n t) →
    (rest : List (Nat × List Atom)) → (roots : List Tree) → forest rest = some roots →
    (∀ r ∈ roots.head?, r.indent ≤ n) → forest (listLines ts ++ rest) = some (ts ++ roots)
  | [], _, _, _, _, hrest, _ => hrest
  | t :: ts, n, h, rest, roots, hrest, hroots => by
    have hts : ∀ t' ∈ ts, Laid n t' := fun t' ht' => h t' (List.mem_cons_of_mem t ht')
    have hforest := forest_listLines ts n hts rest roots hrest hroots
    rw [listLines, List.append_assoc]
    refine forest_lines t n (h t List.mem_cons_self) _ _ hforest ?_
    -- what follows the tree is one of its siblings, or what follows all of them
    cases ts with
    | nil => exact hroots
    | cons t' ts =>
      rintro _ ⟨⟩
      exact Nat.le_of_eq (hts t' List.mem_cons_self).indent_eq

end

end Tree

/-- **A program is read from its trees**: blank lines between them are left out. -/
theorem readProgram_terminated {width : Nat} {ls : List Line} {out : List (Nat × List Atom)}
    {ts : List Tree} (h : Logical width ls out) (hlaid : ∀ t ∈ ts, t.Laid 0)
    (hout : (out.filter fun line => !line.2.isEmpty) = Tree.listLines ts) :
    readProgram (Line.terminated width ls) = readTrees ts := by
  obtain ⟨ps, hphysical, hjoin⟩ := h.joinLines_eq
  have hforest := Tree.forest_listLines ts 0 hlaid [] [] rfl nofun
  rw [List.append_nil, List.append_nil] at hforest
  have hroots : (ts.all fun t => t.indent == 0) = true := by
    rw [List.all_eq_true]
    intro t ht
    rw [(hlaid t ht).indent_eq, beq_self_eq_true]
  simp only [readProgram, hphysical, hjoin, hout, hforest, hroots, if_true]

end Dialogue
