import Dialogue.Text.Quoted
import Mathlib.Data.List.Forall2

/-!
# The form of a literal

What a string literal is, said without the functions that look for it: a quote, one part for each
character of its text, and a quote (`IsLiteral`).  A part is the character itself, a short escape,
or the number of the character in hexadecimal digits, which takes two code units beyond U+FFFF
(`Stands`).

`decode?_eq_some_iff` says that the reader accepts these literals and no others.  The scanner knows
nothing of digits and code units: it passes over the character behind every backslash and stops at
the first quote it meets.  That is enough, since no part of a literal has a quote anywhere else than
behind a backslash, so the scanner takes every part as a whole (`Stands.closing?_append`) and stops
where the literal does.
-/

namespace Dialogue.Text.Quoted

/-! ### The grammar -/

def lowerDigits : List Char :=
  ['0', '1', '2', '3', '4', '5', '6', '7', '8', '9', 'a', 'b', 'c', 'd', 'e', 'f']

def upperDigits : List Char :=
  ['0', '1', '2', '3', '4', '5', '6', '7', '8', '9', 'A', 'B', 'C', 'D', 'E', 'F']

/-- The digit with the value `n`, in either case. -/
def IsHexDigit (c : Char) (n : Nat) : Prop :=
  lowerDigits[n]? = some c ∨ upperDigits[n]? = some c

instance (c : Char) (n : Nat) : Decidable (IsHexDigit c n) :=
  inferInstanceAs (Decidable (_ ∨ _))

/-- Four digits and the number that they write. -/
inductive IsCodeUnit : List Char → Nat → Prop
  | intro {a b c d : Char} {i j k l : Nat} : IsHexDigit a i → IsHexDigit b j → IsHexDigit c k →
      IsHexDigit d l → IsCodeUnit [a, b, c, d] (((i * 16 + j) * 16 + k) * 16 + l)

/-- The letters that may follow a backslash, each with the character it stands for. -/
def shortEscapes : List (Char × Char) :=
  [('"', '"'), ('\\', '\\'), ('/', '/'), ('b', '\x08'), ('f', '\x0c'), ('n', '\n'), ('r', '\r'),
   ('t', '\t')]

/-- **What stands for a character between the quotes of a literal.** -/
inductive Stands : List Char → Char → Prop
  /-- No control character stands for itself. -/
  | self {c : Char} : 0x20 ≤ c.toNat → c ≠ '"' → c ≠ '\\' → Stands [c] c
  | short {e c : Char} : (e, c) ∈ shortEscapes → Stands ['\\', e] c
  /-- The code unit of a character up to U+FFFF.  A surrogate is no character. -/
  | unit {digits : List Char} {c : Char} : IsCodeUnit digits c.toNat →
      Stands ('\\' :: 'u' :: digits) c
  /-- The two code units of a character beyond U+FFFF. -/
  | pair {lead trail : List Char} {high low : Nat} {c : Char} : high < 0x400 → low < 0x400 →
      IsCodeUnit lead (0xD800 + high) → IsCodeUnit trail (0xDC00 + low) →
      c.toNat = 0x10000 + high * 0x400 + low →
      Stands ('\\' :: 'u' :: (lead ++ '\\' :: 'u' :: trail)) c

/-- **A literal that denotes a text.** -/
def IsLiteral (literal value : List Char) : Prop :=
  ∃ parts, List.Forall₂ Stands parts value ∧ literal = '"' :: (parts.flatten ++ ['"'])

/-! ### Digits and code units -/

theorem toNat_le_of_hexValue? {c : Char} {n : Nat} (h : hexValue? c = some n) :
    c.toNat ≤ 0x66 := by
  unfold hexValue? at h
  split at h
  · rename_i hrange
    exact Nat.le_trans (UInt32.le_iff_toNat_le.mp hrange.2) (by decide)
  · split at h
    · rename_i hrange
      exact UInt32.le_iff_toNat_le.mp hrange.2
    · split at h
      · rename_i hrange
        exact Nat.le_trans (UInt32.le_iff_toNat_le.mp hrange.2) (by decide)
      · cases h

/-- The reader of digits knows the digits and no other characters. -/
theorem hexValue?_eq_some_iff {c : Char} {n : Nat} : hexValue? c = some n ↔ IsHexDigit c n := by
  constructor
  · -- every digit is an ASCII character, and these can be gone through
    have hascii : ∀ k < 0x67, ∀ n ∈ hexValue? (Char.ofNat k), IsHexDigit (Char.ofNat k) n := by
      decide
    intro h
    have hdigit := hascii c.toNat (Nat.lt_succ_of_le (toNat_le_of_hexValue? h)) n
    rw [Char.ofNat_toNat] at hdigit
    exact hdigit h
  · have hlower : ∀ n, (h : n < lowerDigits.length) → hexValue? lowerDigits[n] = some n := by decide
    have hupper : ∀ n, (h : n < upperDigits.length) → hexValue? upperDigits[n] = some n := by decide
    rintro (h | h)
    · obtain ⟨hlt, rfl⟩ := List.getElem?_eq_some_iff.mp h
      exact hlower n hlt
    · obtain ⟨hlt, rfl⟩ := List.getElem?_eq_some_iff.mp h
      exact hupper n hlt

/-- No digit is a quote or a backslash. -/
theorem IsHexDigit.ne {c : Char} {n : Nat} (h : IsHexDigit c n) : c ≠ '"' ∧ c ≠ '\\' := by
  have hvalue := hexValue?_eq_some_iff.mpr h
  constructor
  · rintro rfl
    cases hvalue
  · rintro rfl
    cases hvalue

theorem IsHexDigit.lt {c : Char} {n : Nat} (h : IsHexDigit c n) : n < 16 := by
  rcases h with h | h
  · exact (List.getElem?_eq_some_iff.mp h).1
  · exact (List.getElem?_eq_some_iff.mp h).1

theorem IsCodeUnit.length_eq {digits : List Char} {n : Nat} (h : IsCodeUnit digits n) :
    digits.length = 4 := by
  cases h
  rfl

theorem IsCodeUnit.lt {digits : List Char} {n : Nat} (h : IsCodeUnit digits n) : n < 0x10000 := by
  obtain ⟨ha, hb, hc, hd⟩ := h
  have hi := ha.lt
  have hj := hb.lt
  have hk := hc.lt
  have hl := hd.lt
  omega

theorem unit?_eq_some_iff {cs : List Char} {n : Nat} :
    unit? cs = some n ↔ ∃ digits rest, cs = digits ++ rest ∧ IsCodeUnit digits n := by
  constructor
  · intro h
    unfold unit? at h
    split at h
    · rename_i a b c d rest
      simp only [Option.bind_eq_bind, Option.bind_eq_some_iff, Option.pure_def,
        Option.some.injEq] at h
      obtain ⟨i, ha, j, hb, k, hc, l, hd, rfl⟩ := h
      exact ⟨[a, b, c, d], rest, rfl, .intro (hexValue?_eq_some_iff.mp ha)
        (hexValue?_eq_some_iff.mp hb) (hexValue?_eq_some_iff.mp hc) (hexValue?_eq_some_iff.mp hd)⟩
    · cases h
  · rintro ⟨_, rest, rfl, ⟨ha, hb, hc, hd⟩⟩
    simp only [List.cons_append, unit?, hexValue?_eq_some_iff.mpr ha, hexValue?_eq_some_iff.mpr hb,
      hexValue?_eq_some_iff.mpr hc, hexValue?_eq_some_iff.mpr hd]
    rfl

theorem IsCodeUnit.unit?_append {digits : List Char} {n : Nat} (h : IsCodeUnit digits n)
    (rest : List Char) : unit? (digits ++ rest) = some n :=
  unit?_eq_some_iff.mpr ⟨digits, rest, rfl, h⟩

theorem isLeadUnit_iff {n : Nat} : isLeadUnit n = true ↔ 0xD800 ≤ n ∧ n ≤ 0xDBFF := by
  rw [isLeadUnit, Bool.and_eq_true, decide_eq_true_eq, decide_eq_true_eq]

theorem isTrailUnit_iff {n : Nat} : isTrailUnit n = true ↔ 0xDC00 ≤ n ∧ n ≤ 0xDFFF := by
  rw [isTrailUnit, Bool.and_eq_true, decide_eq_true_eq, decide_eq_true_eq]

/-- A character is no surrogate. -/
theorem toNat_lt_or (c : Char) : c.toNat < 0xD800 ∨ (0xDFFF < c.toNat ∧ c.toNat < 0x110000) :=
  c.valid

/-! ### Escapes -/

/-- An escape is read as the character it stands for, whatever follows. -/
theorem Stands.escape?_append {text : List Char} {c : Char} (h : Stands ('\\' :: text) c)
    (rest : List Char) : escape? (text ++ rest) = some (c, text.length) := by
  cases h with
  | self _ _ hslash => exact absurd rfl hslash
  | short hmem =>
    simp only [shortEscapes, List.mem_cons, Prod.mk.injEq, List.not_mem_nil, or_false] at hmem
    rcases hmem with ⟨rfl, rfl⟩ | ⟨rfl, rfl⟩ | ⟨rfl, rfl⟩ | ⟨rfl, rfl⟩ | ⟨rfl, rfl⟩ | ⟨rfl, rfl⟩ |
      ⟨rfl, rfl⟩ | ⟨rfl, rfl⟩
    all_goals rfl
  | @unit digits _ hunit =>
    -- no partner is looked for, since the number is that of a character
    have hvalid := toNat_lt_or c
    have hlead : ¬ isLeadUnit c.toNat = true := by
      rw [isLeadUnit_iff]
      omega
    have htrail : ¬ isTrailUnit c.toNat = true := by
      rw [isTrailUnit_iff]
      omega
    simp only [List.cons_append, escape?, hunit.unit?_append, if_neg hlead, if_neg htrail,
      Char.ofNat_toNat, List.length_cons, hunit.length_eq]
  | @pair lead trail high low _ hhigh hlow hlead htrail hc =>
    have hfirst : isLeadUnit (0xD800 + high) = true := isLeadUnit_iff.mpr (by omega)
    have hsecond : isTrailUnit (0xDC00 + low) = true := isTrailUnit_iff.mpr (by omega)
    -- the partner stands right behind the four digits
    have hdrop : (lead ++ ('\\' :: 'u' :: (trail ++ rest))).drop 4 =
        '\\' :: 'u' :: (trail ++ rest) := by
      rw [← hlead.length_eq, List.drop_left]
    have hjoin : joinUnits (0xD800 + high) (0xDC00 + low) = c := by
      rw [joinUnits, Nat.add_sub_cancel_left, Nat.add_sub_cancel_left, ← hc, Char.ofNat_toNat]
    simp only [List.cons_append, List.append_assoc, escape?, hlead.unit?_append, if_pos hfirst,
      hdrop, htrail.unit?_append, if_pos hsecond, hjoin, List.length_cons, List.length_append,
      hlead.length_eq, htrail.length_eq]

/-- A number in the range of characters is that of one. -/
theorem toNat_ofNat_of_lt_or {n : Nat} (h : n < 0xD800 ∨ (0xDFFF < n ∧ n < 0x110000)) :
    (Char.ofNat n).toNat = n := by
  rw [Char.ofNat, dif_pos h]
  rfl

/-- A code unit that is no half of a pair stands for a character of its own. -/
theorem IsCodeUnit.stands {digits : List Char} {n : Nat} (h : IsCodeUnit digits n)
    (hlead : ¬ isLeadUnit n = true) (htrail : ¬ isTrailUnit n = true) :
    Stands ('\\' :: 'u' :: digits) (Char.ofNat n) := by
  have hlt := h.lt
  rw [isLeadUnit_iff] at hlead
  rw [isTrailUnit_iff] at htrail
  apply Stands.unit
  rw [toNat_ofNat_of_lt_or (by omega)]
  exact h

/-- The two halves of a pair stand for one character. -/
theorem IsCodeUnit.stands_joinUnits {lead trail : List Char} {n m : Nat} (h : IsCodeUnit lead n)
    (h' : IsCodeUnit trail m) (hlead : isLeadUnit n = true) (htrail : isTrailUnit m = true) :
    Stands ('\\' :: 'u' :: (lead ++ '\\' :: 'u' :: trail)) (joinUnits n m) := by
  rw [isLeadUnit_iff] at hlead
  rw [isTrailUnit_iff] at htrail
  obtain ⟨high, rfl⟩ := Nat.exists_eq_add_of_le hlead.1
  obtain ⟨low, rfl⟩ := Nat.exists_eq_add_of_le htrail.1
  refine .pair (by omega) (by omega) h h' ?_
  rw [joinUnits, Nat.add_sub_cancel_left, Nat.add_sub_cancel_left,
    toNat_ofNat_of_lt_or (by omega)]

/-- What is read as an escape by number stands for a character. -/
theorem exists_stands_of_escape?_unit {cs : List Char} {c : Char} {n : Nat}
    (h : escape? ('u' :: cs) = some (c, n)) :
    ∃ text rest, 'u' :: cs = text ++ rest ∧ text.length = n ∧ Stands ('\\' :: text) c := by
  rw [escape?] at h
  cases hfirst : unit? cs with
  | none =>
    simp only [hfirst] at h
    cases h
  | some first =>
    obtain ⟨lead, rest, rfl, hlead⟩ := unit?_eq_some_iff.mp hfirst
    simp only [hfirst] at h
    rw [← hlead.length_eq, List.drop_left] at h
    by_cases hhigh : isLeadUnit first = true
    · -- a partner has to follow at once
      rw [if_pos hhigh] at h
      split at h
      · rename_i ds
        cases hsecond : unit? ds with
        | none =>
          simp only [hsecond] at h
          cases h
        | some second =>
          obtain ⟨trail, rest, rfl, htrail⟩ := unit?_eq_some_iff.mp hsecond
          simp only [hsecond] at h
          split at h
          · rename_i hlow
            obtain ⟨rfl, rfl⟩ := Prod.mk.inj (Option.some.inj h)
            refine ⟨'u' :: (lead ++ '\\' :: 'u' :: trail), rest, by simp, ?_,
              hlead.stands_joinUnits htrail hhigh hlow⟩
            simp [hlead.length_eq, htrail.length_eq]
          · cases h
      · cases h
    · rw [if_neg hhigh] at h
      split at h
      · cases h
      · rename_i hlow
        cases h
        refine ⟨'u' :: lead, rest, rfl, ?_, hlead.stands hhigh hlow⟩
        rw [List.length_cons, hlead.length_eq]

/-- What is read as an escape stands for a character. -/
theorem exists_stands_of_escape? {cs : List Char} {c : Char} {n : Nat}
    (h : escape? cs = some (c, n)) :
    ∃ text rest, cs = text ++ rest ∧ text.length = n ∧ Stands ('\\' :: text) c := by
  have hread := h
  unfold escape? at h
  split at h
  case h_9 => exact exists_stands_of_escape?_unit hread
  case h_10 => cases h
  -- what is left are the short escapes
  all_goals
    rename_i rest
    cases h
    exact ⟨[_], rest, rfl, rfl, .short (by decide)⟩

/-- Two code units, with digits in either case. -/
example : escape? ['u', 'd', '8', '3', 'd', '\\', 'u', 'D', 'E', '0', '0', '"'] =
    some (Char.ofNat 0x1F600, 11) := by decide

/-! ### Reading -/

theorem decodeBody?_plain {c : Char} (hc : 0x20 ≤ c.toNat) (hquote : c ≠ '"') (hslash : c ≠ '\\')
    (cs : List Char) : decodeBody? (c :: cs) = (decodeBody? cs).map (c :: ·) := by
  rw [decodeBody?, if_neg (Nat.not_lt.mpr hc)]
  · exact hquote
  · exact hslash

theorem decodeBody?_escape {c : Char} {n : Nat} {cs : List Char} (h : escape? cs = some (c, n)) :
    decodeBody? ('\\' :: cs) = (decodeBody? (cs.drop n)).map (c :: ·) := by
  rw [decodeBody?, h]

/-- A part is a character that stands for itself, or an escape. -/
theorem Stands.self_or_escape {part : List Char} {c : Char} (h : Stands part c) :
    (0x20 ≤ c.toNat ∧ c ≠ '"' ∧ c ≠ '\\' ∧ part = [c]) ∨ ∃ text, part = '\\' :: text := by
  cases h with
  | self hc hquote hslash => exact .inl ⟨hc, hquote, hslash, rfl⟩
  | short | unit | pair => exact .inr ⟨_, rfl⟩

/-- The reader takes a part as the character it stands for. -/
theorem Stands.decodeBody?_append {part : List Char} {c : Char} (h : Stands part c)
    (cs : List Char) : decodeBody? (part ++ cs) = (decodeBody? cs).map (c :: ·) := by
  obtain ⟨hc, hquote, hslash, rfl⟩ | ⟨text, rfl⟩ := h.self_or_escape
  · exact decodeBody?_plain hc hquote hslash cs
  · rw [List.cons_append, decodeBody?_escape (h.escape?_append cs), List.drop_left]

/-- What is read up to a closing quote has a part for each character. -/
theorem exists_parts_of_decodeBody? {cs value : List Char} (h : decodeBody? cs = some value) :
    ∃ parts, List.Forall₂ Stands parts value ∧ cs = parts.flatten ++ ['"'] := by
  fun_induction decodeBody? cs generalizing value with
  | case1 | case3 | case4 | case6 => cases h
  | case2 cs hempty =>
    cases h
    rw [List.isEmpty_iff.mp hempty]
    exact ⟨[], .nil, rfl⟩
  | case5 cs c n hescape ih =>
    obtain ⟨text, rest, rfl, rfl, hpart⟩ := exists_stands_of_escape? hescape
    obtain ⟨value, hvalue, rfl⟩ := Option.map_eq_some_iff.mp h
    obtain ⟨parts, hparts, hrest⟩ := ih hvalue
    rw [List.drop_left] at hrest
    exact ⟨_, .cons hpart hparts, by rw [hrest]; simp⟩
  | case7 c cs hquote hslash hc ih =>
    obtain ⟨value, hvalue, rfl⟩ := Option.map_eq_some_iff.mp h
    obtain ⟨parts, hparts, rfl⟩ := ih hvalue
    exact ⟨_, .cons (.self (Nat.le_of_not_lt hc) hquote hslash) hparts, rfl⟩

theorem decodeBody?_flatten {parts : List (List Char)} {value : List Char}
    (h : List.Forall₂ Stands parts value) : decodeBody? (parts.flatten ++ ['"']) = some value := by
  induction h with
  | nil =>
    show decodeBody? ['"'] = some []
    rw [decodeBody?]
    rfl
  | cons hpart _ ih =>
    rw [List.flatten_cons, List.append_assoc, hpart.decodeBody?_append, ih, Option.map_some]

/-- **The reader accepts the literals and nothing else.** -/
theorem decode?_eq_some_iff {literal value : List Char} :
    decode? literal = some value ↔ IsLiteral literal value := by
  constructor
  · intro h
    unfold decode? at h
    split at h
    · obtain ⟨parts, hparts, rfl⟩ := exists_parts_of_decodeBody? h
      exact ⟨parts, hparts, rfl⟩
    · cases h
  · rintro ⟨parts, hparts, rfl⟩
    exact decodeBody?_flatten hparts

/-! ### Finding the end -/

theorem closing?_escape (c : Char) (cs : List Char) :
    closing? ('\\' :: c :: cs) = (closing? cs).map (· + 2) := by
  rw [closing?]

theorem closing?_plain {c : Char} (hquote : c ≠ '"') (hslash : c ≠ '\\') (cs : List Char) :
    closing? (c :: cs) = (closing? cs).map (· + 1) := by
  rw [closing?]
  · exact hquote
  · intro h
    exact absurd h hslash
  · intro _ _ h
    exact absurd h hslash

/-- The scanner passes over what is neither a quote nor a backslash. -/
theorem closing?_append_of_forall {text : List Char} (h : ∀ c ∈ text, c ≠ '"' ∧ c ≠ '\\')
    (cs : List Char) : closing? (text ++ cs) = (closing? cs).map (· + text.length) := by
  induction text with
  | nil => simp
  | cons c text ih =>
    obtain ⟨⟨hquote, hslash⟩, htext⟩ := List.forall_mem_cons.mp h
    rw [List.cons_append, closing?_plain hquote hslash, ih htext, Option.map_map]
    rfl

theorem IsCodeUnit.forall_ne {digits : List Char} {n : Nat} (h : IsCodeUnit digits n) :
    ∀ c ∈ digits, c ≠ '"' ∧ c ≠ '\\' := by
  obtain ⟨ha, hb, hc, hd⟩ := h
  simp [ha.ne, hb.ne, hc.ne, hd.ne]

/-- **The scanner takes a part as a whole.** -/
theorem Stands.closing?_append {part : List Char} {c : Char} (h : Stands part c)
    (cs : List Char) : closing? (part ++ cs) = (closing? cs).map (· + part.length) := by
  cases h with
  | self _ hquote hslash => exact closing?_plain hquote hslash cs
  | short => exact closing?_escape _ cs
  | @unit digits _ hunit =>
    rw [List.cons_append, List.cons_append, closing?_escape,
      closing?_append_of_forall hunit.forall_ne, Option.map_map]
    rfl
  | @pair lead trail _ _ _ _ _ hlead htrail =>
    -- the second backslash is one more pair for the scanner
    rw [List.cons_append, List.cons_append, List.append_assoc, closing?_escape,
      closing?_append_of_forall hlead.forall_ne, List.cons_append, List.cons_append,
      closing?_escape, closing?_append_of_forall htrail.forall_ne]
    cases closing? cs with
    | none => rfl
    | some n =>
      simp only [Option.map_some, List.length_cons, List.length_append, Option.some.injEq]
      omega

theorem closing?_flatten {parts : List (List Char)} {value : List Char}
    (h : List.Forall₂ Stands parts value) (rest : List Char) :
    closing? (parts.flatten ++ '"' :: rest) = some (parts.flatten.length + 1) := by
  induction h with
  | nil => rfl
  | cons hpart _ ih =>
    rw [List.flatten_cons, List.append_assoc, hpart.closing?_append, ih, Option.map_some,
      List.length_append]
    congr 1
    omega

/-- **A literal is found at its full length**, whatever follows it. -/
theorem IsLiteral.literalLength?_append {literal value : List Char} (h : IsLiteral literal value)
    (rest : List Char) : literalLength? (literal ++ rest) = some literal.length := by
  obtain ⟨parts, hparts, rfl⟩ := h
  rw [List.cons_append, List.append_assoc, List.singleton_append, literalLength?,
    closing?_flatten hparts]
  simp

/-- Two backslashes in front of the closing quote are a pair. -/
example : literalLength? ['"', 'a', '\\', '\\', '"', ' ', '"'] = some 5 := by decide

/-! ### Quotes outside of pairs -/

/-- Text made of pairs, a backslash with the character behind it, and of other characters. -/
inductive Paired : List Char → Prop
  | nil : Paired []
  | pair (c : Char) {cs : List Char} : Paired cs → Paired ('\\' :: c :: cs)
  | single {c : Char} {cs : List Char} : c ≠ '\\' → Paired cs → Paired (c :: cs)

/-- Text with a quote outside of its pairs. -/
def HasBareQuote (cs : List Char) : Prop :=
  ∃ front back, Paired front ∧ cs = front ++ '"' :: back

theorem Paired.exists_closing? {front : List Char} (h : Paired front) (back : List Char) :
    ∃ n, closing? (front ++ '"' :: back) = some n := by
  induction h with
  | nil => exact ⟨1, rfl⟩
  | pair c _ ih =>
    obtain ⟨n, hn⟩ := ih
    exact ⟨n + 2, by rw [List.cons_append, List.cons_append, closing?_escape, hn]; rfl⟩
  | @single c _ hslash _ ih =>
    obtain ⟨n, hn⟩ := ih
    by_cases hquote : c = '"'
    · -- an earlier quote outside of the pairs
      subst hquote
      exact ⟨1, rfl⟩
    · exact ⟨n + 1, by rw [List.cons_append, closing?_plain hquote hslash, hn]; rfl⟩

/-- The scanner stops behind a quote outside of pairs. -/
theorem exists_of_closing? {cs : List Char} {n : Nat} (h : closing? cs = some n) :
    ∃ front back, Paired front ∧ cs = front ++ '"' :: back ∧ n = front.length + 1 := by
  fun_induction closing? cs generalizing n with
  | case1 | case3 => cases h
  | case2 cs =>
    cases h
    exact ⟨[], cs, .nil, rfl, rfl⟩
  | case4 c cs ih =>
    obtain ⟨m, hm, rfl⟩ := Option.map_eq_some_iff.mp h
    obtain ⟨front, back, hfront, rfl, rfl⟩ := ih hm
    exact ⟨'\\' :: c :: front, back, .pair c hfront, rfl, rfl⟩
  | case5 c cs hquote hend hescape ih =>
    obtain ⟨m, hm, rfl⟩ := Option.map_eq_some_iff.mp h
    obtain ⟨front, back, hfront, rfl, rfl⟩ := ih hm
    have hslash : c ≠ '\\' := by
      rintro rfl
      cases front with
      | nil => exact hescape _ _ rfl rfl
      | cons d ds => exact hescape _ _ rfl rfl
    exact ⟨c :: front, back, .single hslash hfront, rfl, rfl⟩

/-- **The scanner finds no end where there is no quote outside of pairs**, and only there. -/
theorem closing?_eq_none_iff {cs : List Char} : closing? cs = none ↔ ¬ HasBareQuote cs := by
  constructor
  · rintro h ⟨front, back, hfront, rfl⟩
    obtain ⟨n, hn⟩ := hfront.exists_closing? back
    rw [h] at hn
    cases hn
  · intro h
    cases hclosing : closing? cs with
    | none => rfl
    | some n =>
      obtain ⟨front, back, hfront, hcs, -⟩ := exists_of_closing? hclosing
      exact absurd ⟨front, back, hfront, hcs⟩ h

end Dialogue.Text.Quoted
