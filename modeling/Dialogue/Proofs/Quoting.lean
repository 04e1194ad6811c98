import Dialogue.Proofs.ReadingLiterals

/-!
# Quoted texts are read back

What is written for a character stands for it (`Quoted.stands_encodeChar`), so a quoted text is a
literal of that text (`Quoted.isLiteral_encode`).  Every text can therefore be read from its literal
(`Quoted.decode?_encode`), and the literal is found at its full length, whatever follows it
(`Quoted.literalLength?_encode`).

No character below U+0020 stands in a literal, so a literal never contains a line end.
-/

namespace Dialogue

namespace Text.Quoted

/-! ### One character -/

theorem isHexDigit_hexDigit : ∀ n < 16, IsHexDigit (hexDigit n) n := by
  decide

theorem space_le_hexDigit : ∀ n < 16, 0x20 ≤ (hexDigit n).toNat := by
  decide

theorem mem_shortEscapes_of_shortEscape? {c e : Char} (h : shortEscape? c = some e) :
    (e, c) ∈ shortEscapes := by
  unfold shortEscape? at h
  split at h <;> cases h <;> decide

theorem space_le_of_shortEscape? {c e : Char} (h : shortEscape? c = some e) :
    0x20 ≤ e.toNat := by
  unfold shortEscape? at h
  split at h <;> cases h <;> decide

/-- **A character stands for itself, takes a short escape, or is written by its number.** -/
theorem encodeChar_cases (c : Char) :
    (∃ e, shortEscape? c = some e ∧ encodeChar c = ['\\', e]) ∨
      (c.toNat < 0x20 ∧ encodeChar c =
        ['\\', 'u', '0', '0', hexDigit (c.toNat / 16), hexDigit (c.toNat % 16)]) ∨
      (0x20 ≤ c.toNat ∧ c ≠ '"' ∧ c ≠ '\\' ∧ encodeChar c = [c]) := by
  unfold encodeChar
  cases hshort : shortEscape? c with
  | some e => exact .inl ⟨e, rfl, rfl⟩
  | none =>
    by_cases hc : c.toNat < 0x20
    · exact .inr (.inl ⟨hc, by simp only [if_pos hc]⟩)
    · have hquote : c ≠ '"' := by
        rintro rfl
        cases hshort
      have hslash : c ≠ '\\' := by
        rintro rfl
        cases hshort
      exact .inr (.inr ⟨Nat.le_of_not_lt hc, hquote, hslash, by simp only [if_neg hc]⟩)

/-- **What is written for a character stands for it.** -/
theorem stands_encodeChar (c : Char) : Stands (encodeChar c) c := by
  obtain ⟨e, he, henc⟩ | ⟨hc, henc⟩ | ⟨hc, hquote, hslash, henc⟩ := encodeChar_cases c
  · rw [henc]
    exact .short (mem_shortEscapes_of_shortEscape? he)
  · have hzero : IsHexDigit '0' 0 := by decide
    have hunit := IsCodeUnit.intro hzero hzero (isHexDigit_hexDigit (c.toNat / 16) (by omega))
      (isHexDigit_hexDigit (c.toNat % 16) (by omega))
    have hvalue : ((0 * 16 + 0) * 16 + c.toNat / 16) * 16 + c.toNat % 16 = c.toNat := by omega
    rw [hvalue] at hunit
    rw [henc]
    exact .unit hunit
  · rw [henc]
    exact .self hc hquote hslash

/-- No character of a literal is a control character. -/
theorem space_le_of_mem_encodeChar {c d : Char} (h : d ∈ encodeChar c) : 0x20 ≤ d.toNat := by
  obtain ⟨e, he, henc⟩ | ⟨hc, henc⟩ | ⟨hc, -, -, henc⟩ := encodeChar_cases c
  · rw [henc] at h
    simp only [List.mem_cons, List.not_mem_nil, or_false] at h
    rcases h with rfl | rfl
    · decide
    · exact space_le_of_shortEscape? he
  · rw [henc] at h
    simp only [List.mem_cons, List.not_mem_nil, or_false] at h
    rcases h with rfl | rfl | rfl | rfl | rfl | rfl
    · decide
    · decide
    · decide
    · decide
    · exact space_le_hexDigit _ (by omega)
    · exact space_le_hexDigit _ (by omega)
  · rw [henc] at h
    rw [List.mem_singleton.mp h]
    exact hc

/-! ### Texts -/

/-- **A quoted text is a literal of that text.** -/
theorem isLiteral_encode (s : List Char) : IsLiteral (encode s) s := by
  refine ⟨s.map encodeChar, ?_, rfl⟩
  rw [List.forall₂_map_left_iff, List.forall₂_same]
  exact fun c _ => stands_encodeChar c

/-- **A quoted text is found at its full length**, whatever follows it. -/
theorem literalLength?_encode (s rest : List Char) :
    literalLength? (encode s ++ rest) = some (encode s).length :=
  (isLiteral_encode s).literalLength?_append rest

/-- **Every text is read back from its literal.** -/
theorem decode?_encode (s : List Char) : decode? (encode s) = some s :=
  decode?_eq_some_iff.mpr (isLiteral_encode s)

theorem space_le_of_mem_encode {s : List Char} {c : Char} (h : c ∈ encode s) :
    0x20 ≤ c.toNat := by
  unfold encode at h
  simp only [List.mem_cons, List.mem_append, List.mem_flatMap, List.not_mem_nil, or_false] at h
  rcases h with rfl | ⟨d, -, hd⟩ | rfl
  · decide
  · exact space_le_of_mem_encodeChar hd
  · decide

end Text.Quoted

namespace Text

theorem toList_quote (s : String) : (quote s).toList = Quoted.encode s.toList :=
  String.toList_ofList

theorem newline_notMem_quote (s : String) : '\n' ∉ (quote s).toList := by
  rw [toList_quote]
  intro hmem
  exact absurd (Quoted.space_le_of_mem_encode hmem) (by decide)

end Text

/-- A quoted text is one piece of a line. -/
theorem Lexer.stringPiece_encode (s rest : List Char) :
    stringPiece (Text.Quoted.encode s ++ rest) =
      .ok (.token (.string (String.ofList s)) ((Text.Quoted.encode s).length - 1)) :=
  stringPiece_append (Text.Quoted.isLiteral_encode s) rest

end Dialogue
