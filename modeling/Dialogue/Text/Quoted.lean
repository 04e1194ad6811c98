/-!
# Quoted texts

The one notation for a text in double quotes, used for string literals in a script and for every
text in the output: JSON strings.  Inside the quotes a backslash starts an escape, and the
characters below U+0020 may not stand for themselves.

* `encode` writes a text.  A character with a short escape takes it, another one below U+0020 is
  written as `\u00xx` with lower-case digits, and all else stands for itself.
* `literalLength?` finds where the literal at the start of a text ends, looking at nothing but
  quotes and backslashes.
* `decode?` reads a whole literal.  It also takes the escape `\/`, upper-case digits, and code
  points beyond U+FFFF written as two surrogate units; a surrogate without its partner has no
  meaning.

The two halves of reading are apart on purpose: a literal that never ends and a literal that is not
well formed are different mistakes of a script.
-/

namespace Dialogue.Text

namespace Quoted

/-! ### Hexadecimal digits -/

/-- The lower-case digit for `n < 16`. -/
def hexDigit (n : Nat) : Char :=
  if n < 10 then Char.ofNat (0x30 + n) else Char.ofNat (0x57 + n)

/-- The value of a digit, in either case. -/
def hexValue? (c : Char) : Option Nat :=
  if '0' ≤ c ∧ c ≤ '9' then some (c.toNat - 0x30)
  else if 'a' ≤ c ∧ c ≤ 'f' then some (c.toNat - 0x57)
  else if 'A' ≤ c ∧ c ≤ 'F' then some (c.toNat - 0x37)
  else none

/-- The value of the four digits at the start of a text. -/
def unit? : List Char → Option Nat
  | a :: b :: c :: d :: _ => do
    let a ← hexValue? a
    let b ← hexValue? b
    let c ← hexValue? c
    let d ← hexValue? d
    return ((a * 16 + b) * 16 + c) * 16 + d
  | _ => none

/-! ### Writing -/

/-- The letter that stands for `c` after a backslash, for the characters that have one. -/
def shortEscape? : Char → Option Char
  | '"' => some '"'
  | '\\' => some '\\'
  | '\x08' => some 'b'
  | '\x0c' => some 'f'
  | '\n' => some 'n'
  | '\r' => some 'r'
  | '\t' => some 't'
  | _ => none

/-- One character as it stands between the quotes. -/
def encodeChar (c : Char) : List Char :=
  match shortEscape? c with
  | some e => ['\\', e]
  | none =>
    if c.toNat < 0x20 then
      ['\\', 'u', '0', '0', hexDigit (c.toNat / 16), hexDigit (c.toNat % 16)]
    else [c]

/-- A text in quotes. -/
def encode (cs : List Char) : List Char :=
  '"' :: (cs.flatMap encodeChar ++ ['"'])

/-! ### Finding the end of a literal -/

/-- The number of characters up to and including the first quote that no backslash escapes. -/
def closing? : List Char → Option Nat
  | [] => none
  | '"' :: _ => some 1
  | ['\\'] => none
  | '\\' :: _ :: cs => (closing? cs).map (· + 2)
  | _ :: cs => (closing? cs).map (· + 1)

/-- The length of the literal that a text starts with, both quotes included. -/
def literalLength? : List Char → Option Nat
  | '"' :: cs => (closing? cs).map (· + 1)
  | _ => none

/-! ### Reading -/

/-- The first half of a surrogate pair. -/
def isLeadUnit (n : Nat) : Bool := 0xD800 ≤ n && n ≤ 0xDBFF

/-- The second half of a surrogate pair. -/
def isTrailUnit (n : Nat) : Bool := 0xDC00 ≤ n && n ≤ 0xDFFF

/-- The character that a surrogate pair denotes. -/
def joinUnits (lead trail : Nat) : Char :=
  Char.ofNat (0x10000 + (lead - 0xD800) * 0x400 + (trail - 0xDC00))

/-- The character that an escape denotes, with the number of characters it takes after the
backslash. -/
def escape? : List Char → Option (Char × Nat)
  | '"' :: _ => some ('"', 1)
  | '\\' :: _ => some ('\\', 1)
  | '/' :: _ => some ('/', 1)
  | 'b' :: _ => some ('\x08', 1)
  | 'f' :: _ => some ('\x0c', 1)
  | 'n' :: _ => some ('\n', 1)
  | 'r' :: _ => some ('\r', 1)
  | 't' :: _ => some ('\t', 1)
  | 'u' :: cs =>
    match unit? cs with
    | none => none
    | some n =>
      if isLeadUnit n then
        -- the partner has to follow at once, as an escape of its own
        match cs.drop 4 with
        | '\\' :: 'u' :: ds =>
          match unit? ds with
          | none => none
          | some m => if isTrailUnit m then some (joinUnits n m, 11) else none
        | _ => none
      else if isTrailUnit n then none
      else some (Char.ofNat n, 5)
  | _ => none

/-- Reads what follows the opening quote; the closing quote has to be the last character. -/
def decodeBody? : List Char → Option (List Char)
  | [] => none
  | '"' :: cs => if cs.isEmpty then some [] else none
  | '\\' :: cs =>
    match escape? cs with
    | none => none
    | some (c, n) => (decodeBody? (cs.drop n)).map (c :: ·)
  | c :: cs => if c.toNat < 0x20 then none else (decodeBody? cs).map (c :: ·)
termination_by cs => cs.length
decreasing_by
  · simp only [List.length_drop, List.length_cons]; omega
  · simp

/-- The text that a whole literal denotes. -/
def decode? : List Char → Option (List Char)
  | '"' :: cs => decodeBody? cs
  | _ => none

end Quoted

/-- A text in double quotes. -/
def quote (s : String) : String :=
  String.ofList (Quoted.encode s.toList)

end Dialogue.Text
