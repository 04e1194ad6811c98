import Dialogue.Error

/-!
# Reading off a list of tokens

A reader takes some tokens off the front of a list and leaves the rest.  Its result, a `Taken`,
carries the fact that the rest is a suffix of the list it was given: nothing is reordered or put
back, and the readers that call each other end because what is left never grows.

The readers of this module are bound to a line: they stop at the first token that stands on another
one.
-/

namespace Dialogue

/-- A value read off the front of `tokens`, and what is left of them. -/
structure Taken (α : Type) (tokens : List Token) where
  value : α
  rest : List Token
  suffix : rest <:+ tokens

namespace Taken

variable {α β : Type} {ts : List Token}

/-- Takes no token. -/
def nothing (a : α) (ts : List Token) : Taken α ts :=
  ⟨a, ts, List.suffix_refl ts⟩

/-- What was taken behind `t` was taken from the longer list, `t` included. -/
def behind (t : Token) (r : Taken α ts) : Taken α (t :: ts) :=
  ⟨r.value, r.rest, r.suffix.trans (List.suffix_cons t ts)⟩

/-- Goes on with what is left. -/
def onward (r : Taken α ts) (s : Taken β r.rest) : Taken β ts :=
  ⟨s.value, s.rest, s.suffix.trans r.suffix⟩

/-- Changes the value. -/
def map (f : α → β) (r : Taken α ts) : Taken β ts :=
  ⟨f r.value, r.rest, r.suffix⟩

/-- No reader makes a list longer. -/
theorem length_le (r : Taken α ts) : r.rest.length ≤ ts.length :=
  r.suffix.length_le

end Taken

/-! ### Readers bound to a line -/

/-- The conditions that follow on `line`. -/
def takeConditions (line : Nat) : (ts : List Token) → Taken (List String) ts
  | ⟨.condition expr, p⟩ :: ts =>
    if p.line = line then ((takeConditions line ts).map (expr :: ·)).behind ⟨.condition expr, p⟩
    else .nothing [] _
  | ts => .nothing [] ts

/-- The divert that follows on `line`, if there is one. -/
def takeDivert (line : Nat) : (ts : List Token) → Taken (Option String) ts
  | ⟨.divert target, p⟩ :: ts =>
    if p.line = line then (Taken.nothing (some target) ts).behind ⟨.divert target, p⟩
    else .nothing none _
  | ts => .nothing none ts

/-- The words that follow an actor's name on `line`, if there are any. -/
def takeSpeech (line : Nat) : (ts : List Token) → Taken (Option String) ts
  | ⟨.string value, p⟩ :: ts =>
    if p.line = line then (Taken.nothing (some value) ts).behind ⟨.string value, p⟩
    else .nothing none _
  | ts => .nothing none ts

/-- The arguments of a call: all tokens that follow on `line`. -/
def takeArguments (line : Nat) : (ts : List Token) → Except Error (Taken (List String) ts)
  | [] => .ok (.nothing [] [])
  | t :: ts =>
    if t.line = line then
      match t.kind with
      | .symbol value => (takeArguments line ts).map fun r => (r.map (value :: ·)).behind t
      | .string value => (takeArguments line ts).map fun r => (r.map (value :: ·)).behind t
      | found => .error (.syntactic (.badArgument found) t.position)
    else .ok (.nothing [] _)

end Dialogue
