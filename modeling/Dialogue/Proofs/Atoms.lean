import Dialogue.Proofs.Lexemes

/-!
# Atoms

The lines of a program, and of JSON text, are made of *atoms*: words, texts in quotes, and single
marks.  Spaces only keep words apart.  The lemmas say how `atoms` passes over each kind of atom,
from left to right.
-/

namespace Dialogue

open Text

/-- What a line is made of. -/
inductive Atom where
  | word (name : String)
  | text (value : String)
  | mark (c : Char)
deriving DecidableEq, Repr

/-- The atoms of a line.  Spaces only keep words apart. -/
def atoms : List Char → Option (List Atom)
  | [] => some []
  | c :: cs =>
    if c = ' ' then atoms cs
    else if Lexer.isWordChar c then
      (atoms (cs.dropWhile Lexer.isWordChar)).map
        (.word (String.ofList (c :: cs.takeWhile Lexer.isWordChar)) :: ·)
    else if c = '"' then
      match Quoted.literalLength? (c :: cs) with
      | none => none
      | some n =>
        match Quoted.decode? ((c :: cs).take n) with
        | none => none
        | some value => (atoms (cs.drop (n - 1))).map (.text (String.ofList value) :: ·)
    else (atoms cs).map (.mark c :: ·)
termination_by cs => cs.length
decreasing_by
  · simp
  · have hle := (List.dropWhile_suffix (l := cs) Lexer.isWordChar).length_le
    simp only [List.length_cons]
    omega
  · simp only [List.length_drop, List.length_cons]
    omega
  · simp

/-! ### One atom -/

@[simp] theorem atoms_nil : atoms [] = some [] := by
  rw [atoms]

theorem atoms_space (cs : List Char) : atoms (' ' :: cs) = atoms cs := by
  rw [atoms, if_pos rfl]

theorem atoms_mark {c : Char} (hspace : c ≠ ' ') (hword : Lexer.isWordChar c = false)
    (hquote : c ≠ '"') (cs : List Char) : atoms (c :: cs) = (atoms cs).map (.mark c :: ·) := by
  rw [atoms, if_neg hspace, if_neg (by rw [hword]; exact Bool.false_ne_true), if_neg hquote]

/-- A word ends where no word character follows. -/
theorem atoms_word {word rest : List Char} (hne : word ≠ [])
    (hword : ∀ c ∈ word, Lexer.isWordChar c = true)
    (hrest : ∀ c ∈ rest.head?, Lexer.isWordChar c = false) :
    atoms (word ++ rest) = (atoms rest).map (.word (String.ofList word) :: ·) := by
  obtain ⟨c, cs, rfl⟩ := List.exists_cons_of_ne_nil hne
  have hc : Lexer.isWordChar c = true := hword c List.mem_cons_self
  have hspace : c ≠ ' ' := by
    rintro rfl
    exact absurd hc (by decide)
  obtain ⟨htake, hdrop⟩ := Lexer.takeWhile_append_of_stop
    (fun d hd => hword d (List.mem_cons_of_mem c hd)) hrest
  rw [List.cons_append, atoms, if_neg hspace, if_pos hc, htake, hdrop]

/-- A text in quotes is one atom. -/
theorem atoms_encode (value rest : List Char) :
    atoms (Quoted.encode value ++ rest) = (atoms rest).map (.text (String.ofList value) :: ·) := by
  have hlength := Quoted.literalLength?_encode value rest
  have hcons : Quoted.encode value ++ rest =
      '"' :: (value.flatMap Quoted.encodeChar ++ ['"'] ++ rest) := rfl
  have htake : (Quoted.encode value ++ rest).take (Quoted.encode value).length =
      Quoted.encode value := List.take_left
  have hdrop : (value.flatMap Quoted.encodeChar ++ ['"'] ++ rest).drop
      ((Quoted.encode value).length - 1) = rest := List.drop_left
  rw [hcons] at hlength htake ⊢
  rw [atoms, if_neg (by decide), if_neg (by decide), if_pos rfl, hlength]
  simp only [htake, Quoted.decode?_encode, hdrop]

end Dialogue
