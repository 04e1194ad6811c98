import Dialogue.Proofs.Lowering
import Mathlib.Data.List.Nodup

/-!
# Menus and their variables

Every menu of a program has a variable, and the variables of a program are numbered in the order of
its text.  Lowering hands the next free number from one block to the next, through all branches, so
a routine uses as many numbers as its segment has menus (`Action.Lowers.free_eq`): one for each
maximal run of adjacent choices, in the segment itself or in a branch at any depth.  Variables with
different numbers have different names (`Action.nodup_variableNames`).
-/

namespace Dialogue

/-! ### Counting menus -/

namespace Statement

/-- Whether a choice is the last one of a run: no choice follows it. -/
def endsRun (stmt : Statement) (rest : List Statement) : Bool :=
  stmt.isChoice && !rest.head?.any isChoice

mutual

/-- The number of menus inside a statement. -/
def menus : Statement → Nat
  | conditional _ consequent alternate => listMenus consequent + listMenus alternate
  | _ => 0

/-- The number of menus in a block: its maximal runs of choices, each counted at its last choice,
and the menus inside its statements. -/
def listMenus : List Statement → Nat
  | [] => 0
  | stmt :: rest => (if endsRun stmt rest then 1 else 0) + menus stmt + listMenus rest

end

example : listMenus [choice "a" [] none, offer (.line "b" none), speech "ann" "c",
    conditional ["d"] [choice "e" [] none] [divert "F", choice "g" [] none],
    choice "h" [] none] = 4 := rfl

theorem menus_of_isChoice {stmt : Statement} (h : stmt.isChoice = true) : stmt.menus = 0 := by
  cases stmt with
  | choice | offer => rfl
  | _ => cases h

theorem listMenus_of_not_isChoice {stmt : Statement} (h : stmt.isChoice = false)
    (rest : List Statement) : listMenus (stmt :: rest) = stmt.menus + listMenus rest := by
  rw [listMenus, endsRun, h, Bool.false_and, if_neg Bool.false_ne_true, Nat.zero_add]

theorem listMenus_leaf {stmt : Statement} (hchoice : stmt.isChoice = false)
    (hmenus : stmt.menus = 0) {rest : List Statement} :
    listMenus (stmt :: rest) = listMenus rest := by
  rw [listMenus_of_not_isChoice hchoice, hmenus, Nat.zero_add]

/-- **A choice and all choices behind it are one menu.** -/
theorem listMenus_of_isChoice {stmt : Statement} (h : stmt.isChoice = true)
    (rest : List Statement) :
    listMenus (stmt :: rest) = listMenus (rest.dropWhile isChoice) + 1 := by
  induction rest generalizing stmt with
  | nil =>
    have hends : endsRun stmt [] = true := by rw [endsRun, h]; rfl
    rw [listMenus, hends, if_pos rfl, menus_of_isChoice h, List.dropWhile_nil, listMenus]
  | cons next rest ih =>
    have hends : endsRun stmt (next :: rest) = !next.isChoice := by
      rw [endsRun, h]
      rfl
    rw [listMenus, hends, menus_of_isChoice h]
    by_cases hnext : next.isChoice = true
    · -- the run goes on, and it is counted further on
      rw [hnext, Bool.not_true, if_neg Bool.false_ne_true, List.dropWhile_cons_of_pos hnext,
        ih hnext, Nat.zero_add]
    · rw [Bool.not_eq_true] at hnext
      rw [hnext, Bool.not_false, if_pos rfl,
        List.dropWhile_cons_of_neg (hnext ▸ Bool.false_ne_true)]
      omega

end Statement

namespace Segment

/-- The number of menus of a segment. -/
def menus (s : Segment) : Nat :=
  Statement.listMenus s.children

/-- The number of menus of segments. -/
def listMenus : List Segment → Nat
  | [] => 0
  | s :: rest => s.menus + listMenus rest

end Segment

/-- **Lowering uses one slot for each menu.** -/
theorem Action.Lowers.free_eq {slot free : Nat} {stmts : List Statement} {actions : List Action}
    (h : Lowers slot stmts actions free) : free = slot + Statement.listMenus stmts := by
  induction h with
  | nil => rfl
  | menu hchoice _ ih =>
    rw [ih, Statement.listMenus_of_isChoice hchoice]
    omega
  | divert _ _ ih | speech _ _ _ ih | call _ _ _ ih | script _ _ ih =>
    rw [ih, Statement.listMenus_leaf rfl rfl]
  | conditional _ _ _ _ ih₁ ih₂ ih =>
    rw [ih, ih₂, ih₁, Statement.listMenus_of_not_isChoice rfl, Statement.menus]
    omega

/-- The variables of different slots are different. -/
theorem Action.variableName_injective : Function.Injective Action.variableName := by
  intro a b h
  have hdigits : Nat.toDigits 10 a = Nat.toDigits 10 b := by
    have hchars := congrArg String.toList h
    simpa only [Action.variableName, String.toList_append, List.append_cancel_left_eq,
      Nat.toList_repr] using hchars
  calc a = Nat.ofDigitChars 10 (Nat.toDigits 10 a) 0 := Nat.ofDigitChars_ten_toDigits.symm
    _ = Nat.ofDigitChars 10 (Nat.toDigits 10 b) 0 := by rw [hdigits]
    _ = b := Nat.ofDigitChars_ten_toDigits

theorem Action.nodup_variableNames (slot n : Nat) :
    ((List.range' slot n).map Action.variableName).Nodup := by
  have hslots : (List.range' slot n).Nodup := List.nodup_range'
  exact List.Nodup.map Action.variableName_injective hslots

end Dialogue
