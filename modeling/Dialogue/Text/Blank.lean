/-!
# Blank characters

A character is *blank* when it has the Unicode property `White_Space`: the ASCII blanks, the
next-line and no-break characters, the spaces of fixed width, and the line and paragraph
separators.

The property is given by a table of ranges of code points, since the character classes of the core
library stop at ASCII.  Everything else in this module is list recursion over the table's predicate:
`trim` removes blanks from both ends of a text and `isBlankText` says that nothing would be left.
-/

namespace Dialogue.Text

/-! ### Ranges of code points -/

/-- The code points from `first` to `last`, both included. -/
structure CodeRange where
  first : Nat
  last : Nat
deriving DecidableEq, Repr

/-- Whether `c` lies in one of `ranges`. -/
def inRanges (ranges : List CodeRange) (c : Char) : Bool :=
  ranges.any fun r => r.first ≤ c.toNat && c.toNat ≤ r.last

/-! ### The property -/

/-- The 25 code points with the property `White_Space`, in increasing order. -/
def blankRanges : List CodeRange :=
  [⟨0x0009, 0x000D⟩, ⟨0x0020, 0x0020⟩, ⟨0x0085, 0x0085⟩, ⟨0x00A0, 0x00A0⟩, ⟨0x1680, 0x1680⟩,
   ⟨0x2000, 0x200A⟩, ⟨0x2028, 0x2029⟩, ⟨0x202F, 0x202F⟩, ⟨0x205F, 0x205F⟩, ⟨0x3000, 0x3000⟩]

example : (blankRanges.map fun r => r.last + 1 - r.first).sum = 25 := by decide

/-- Whether `c` is blank. -/
def isBlank (c : Char) : Bool :=
  inRanges blankRanges c

/-! ### Texts -/

/-- Whether a text holds blanks only. -/
def isBlankText (cs : List Char) : Bool :=
  cs.all isBlank

/-- A text without the blanks at its two ends. -/
def trim (cs : List Char) : List Char :=
  ((cs.dropWhile isBlank).reverse.dropWhile isBlank).reverse

end Dialogue.Text
