import Dialogue.Proofs.LiteralForms
import Dialogue.Token.Lexer

/-!
# Finding a literal and reading it

A string is read in two stages: the scanner looks for the end of the literal, and the reader is
given what lies in between.  This comes to the same as asking which front part of the text is a
literal (`literalLength?_and_decode?_iff`).  The scanner cannot stop too early or too late for any
literal, so the stages miss none, and no text starts with two literals.

There are two ways to fail, and each has a message of its own (`Lexer.stringPiece_cases`).  A text
without a quote outside of pairs has no end.  If there is such a quote, the scanner has an answer,
and when the reader refuses it then no other front part of the text would have been a literal
either.
-/

namespace Dialogue

open Text

namespace Text.Quoted

/-! ### Front parts -/

/-- The first `n` bytes of a text, as characters. -/
def FirstBytes (n : Nat) (front text : List Char) : Prop :=
  front <+: text ∧ (String.ofList front).utf8ByteSize = n

/-- The number of bytes of the literal that the scanner finds. -/
def literalSize? (text : List Char) : Option Nat :=
  (literalLength? text).map fun n => (String.ofList (text.take n)).utf8ByteSize

theorem literalLength?_le {text : List Char} {n : Nat} (h : literalLength? text = some n) :
    n ≤ text.length := by
  unfold literalLength? at h
  split at h
  · obtain ⟨m, hm, rfl⟩ := Option.map_eq_some_iff.mp h
    obtain ⟨front, back, -, rfl, rfl⟩ := exists_of_closing? hm
    simp only [List.length_cons, List.length_append]
    omega
  · cases h

/-- A front part that is a literal is what the scanner finds. -/
theorem IsLiteral.literalLength?_of_prefix {literal value text : List Char}
    (h : IsLiteral literal value) (hfront : literal <+: text) :
    literalLength? text = some literal.length := by
  obtain ⟨rest, rfl⟩ := hfront
  exact h.literalLength?_append rest

theorem literalLength?_and_decode?_iff {text value : List Char} {n : Nat} :
    literalLength? text = some n ∧ decode? (text.take n) = some value ↔
      n ≤ text.length ∧ IsLiteral (text.take n) value := by
  rw [decode?_eq_some_iff]
  constructor
  · rintro ⟨hlength, hliteral⟩
    exact ⟨literalLength?_le hlength, hliteral⟩
  · rintro ⟨hle, hliteral⟩
    have hlength := hliteral.literalLength?_of_prefix (List.take_prefix n text)
    rw [List.length_take_of_le hle] at hlength
    exact ⟨hlength, hliteral⟩

theorem literalSize?_and_decode?_iff {text value : List Char} {n : Nat} :
    (literalSize? text = some n ∧ ∃ front, FirstBytes n front text ∧ decode? front = some value) ↔
      ∃ front, FirstBytes n front text ∧ IsLiteral front value := by
  simp only [decode?_eq_some_iff]
  refine ⟨And.right, ?_⟩
  rintro ⟨front, ⟨hfront, rfl⟩, hliteral⟩
  refine ⟨?_, front, ⟨hfront, rfl⟩, hliteral⟩
  rw [literalSize?, hliteral.literalLength?_of_prefix hfront, Option.map_some,
    ← List.prefix_iff_eq_take.mp hfront]

/-- **No text starts with two literals.** -/
theorem IsLiteral.unique {literal value literal' value' text : List Char}
    (h : IsLiteral literal value) (hfront : literal <+: text) (h' : IsLiteral literal' value')
    (hfront' : literal' <+: text) : literal = literal' ∧ value = value' := by
  have hlength : literal.length = literal'.length := by
    have hfound := h.literalLength?_of_prefix hfront
    rw [h'.literalLength?_of_prefix hfront'] at hfound
    exact (Option.some.inj hfound).symm
  obtain rfl : literal = literal' := by
    rw [List.prefix_iff_eq_take.mp hfront, List.prefix_iff_eq_take.mp hfront', hlength]
  have hread := decode?_eq_some_iff.mpr h
  rw [decode?_eq_some_iff.mpr h'] at hread
  exact ⟨rfl, (Option.some.inj hread).symm⟩

end Text.Quoted

/-! ### Strings in a line -/

namespace Lexer

open Quoted

/-- A literal is one piece of a line, whatever follows it. -/
theorem stringPiece_append {text value : List Char} (h : IsLiteral ('"' :: text) value)
    (rest : List Char) : stringPiece ('"' :: (text ++ rest)) =
      .ok (.token (.string (String.ofList value)) text.length) := by
  have hlength : literalLength? ('"' :: (text ++ rest)) = some (text.length + 1) :=
    h.literalLength?_append rest
  have hread : decode? (('"' :: (text ++ rest)).take (text.length + 1)) = some value := by
    rw [List.take_succ_cons, List.take_left]
    exact decode?_eq_some_iff.mpr h
  simp only [stringPiece, hlength, hread, Nat.add_sub_cancel]

/-- **What reading a string comes to.**  Without a quote outside of pairs there is no end.  With
one, the text starts with a literal or it does not. -/
theorem stringPiece_cases (cs : List Char) :
    (¬ HasBareQuote cs ∧ stringPiece ('"' :: cs) = .error (.unterminated '"')) ∨
      HasBareQuote cs ∧
        (((∀ literal value, literal <+: '"' :: cs → ¬ IsLiteral literal value) ∧
            stringPiece ('"' :: cs) = .error .invalidString) ∨
          ∃ text rest value, cs = text ++ rest ∧ IsLiteral ('"' :: text) value) := by
  cases hclosing : closing? cs with
  | none =>
    refine .inl ⟨closing?_eq_none_iff.mp hclosing, ?_⟩
    rw [stringPiece, literalLength?, hclosing, Option.map_none]
  | some m =>
    obtain ⟨front, back, hfront, hcs, -⟩ := exists_of_closing? hclosing
    have hlength : literalLength? ('"' :: cs) = some (m + 1) := by
      rw [literalLength?, hclosing, Option.map_some]
    refine .inr ⟨⟨front, back, hfront, hcs⟩, ?_⟩
    cases hread : decode? (('"' :: cs).take (m + 1)) with
    | none =>
      refine .inl ⟨fun literal value hfront hliteral => ?_, ?_⟩
      · -- the scanner would have found this literal, and the reader accepts it
        have hfound := hliteral.literalLength?_of_prefix hfront
        rw [hlength] at hfound
        rw [Option.some.inj hfound, ← List.prefix_iff_eq_take.mp hfront,
          decode?_eq_some_iff.mpr hliteral] at hread
        cases hread
      · simp only [stringPiece, hlength, hread]
    | some value =>
      exact .inr ⟨cs.take m, cs.drop m, value, (List.take_append_drop m cs).symm,
        decode?_eq_some_iff.mp hread⟩

theorem stringPiece_eq_ok_iff {cs : List Char} {found : Piece} :
    stringPiece ('"' :: cs) = .ok found ↔ ∃ text rest value, cs = text ++ rest ∧
      IsLiteral ('"' :: text) value ∧
        found = .token (.string (String.ofList value)) text.length := by
  constructor
  · intro h
    obtain ⟨-, heq⟩ | ⟨-, ⟨-, heq⟩ | ⟨text, rest, value, rfl, hliteral⟩⟩ := stringPiece_cases cs
    · rw [heq] at h
      cases h
    · rw [heq] at h
      cases h
    · rw [stringPiece_append hliteral] at h
      exact ⟨text, rest, value, rfl, hliteral, (Except.ok.inj h).symm⟩
  · rintro ⟨text, rest, value, rfl, hliteral, rfl⟩
    exact stringPiece_append hliteral rest

theorem stringPiece_eq_unterminated_iff {cs : List Char} :
    stringPiece ('"' :: cs) = .error (.unterminated '"') ↔ ¬ HasBareQuote cs := by
  obtain ⟨hbare, heq⟩ | ⟨hbare, ⟨-, heq⟩ | ⟨text, rest, value, rfl, hliteral⟩⟩ :=
    stringPiece_cases cs
  · simp [heq, hbare]
  · simp [heq, hbare]
  · simp [stringPiece_append hliteral, hbare]

theorem stringPiece_eq_invalidString_iff {cs : List Char} :
    stringPiece ('"' :: cs) = .error .invalidString ↔ HasBareQuote cs ∧
      ∀ literal value, literal <+: '"' :: cs → ¬ IsLiteral literal value := by
  obtain ⟨hbare, heq⟩ | ⟨hbare, ⟨hnone, heq⟩ | ⟨text, rest, value, rfl, hliteral⟩⟩ :=
    stringPiece_cases cs
  · simp [heq, hbare]
  · rw [heq]
    exact ⟨fun _ => ⟨hbare, hnone⟩, fun _ => rfl⟩
  · rw [stringPiece_append hliteral]
    constructor
    · rintro ⟨⟩
    · rintro ⟨-, hnone⟩
      exact absurd hliteral (hnone _ value (List.prefix_append ('"' :: text) rest))

end Lexer

end Dialogue
