import Dialogue.Script.Offer

/-!
# Clauses

At the level of statements a script is a sequence of clauses: headers, the keywords of conditionals
with the conditions behind them, and statements that are complete by themselves.  `takeClause` reads
one clause without knowing what encloses it; how clauses nest is kept by `State`.

For this reason a clause may have an empty list of conditions.  Whether that is an error, and which
error comes first, depends on the conditional that the keyword continues.
-/

namespace Dialogue

/-- A unit of a script at the level of statements. -/
inductive Clause where
  /-- A new segment starts. -/
  | header (name : String)
  /-- A conditional starts: `if`. -/
  | opening (conditions : List String)
  /-- The innermost conditional goes on with a further test: `elif`. -/
  | chaining (conditions : List String)
  /-- The innermost conditional goes on with its last branch: `else`. -/
  | otherwise
  /-- The innermost conditional ends: `endif`. -/
  | closing
  | statement (stmt : Statement)
deriving Repr

/-- The clause that starts with `t` and goes on in `ts`. -/
def takeClause (stop : Position) (t : Token) (ts : List Token) : Except Error (Taken Clause ts) :=
  match t.kind with
  | .header name => .ok (.nothing (.header name) ts)
  | .keyword .if_ => .ok ((takeConditions t.line ts).map .opening)
  | .keyword .elif => .ok ((takeConditions t.line ts).map .chaining)
  | .keyword .else_ => .ok (.nothing .otherwise ts)
  | .keyword .endif => .ok (.nothing .closing ts)
  | .marker => (takeChoice stop t.position ts).map (·.map .statement)
  | .actor name =>
    let speech := takeSpeech t.line ts
    match speech.value with
    | some line => .ok (speech.map fun _ => .statement (.speech name line))
    | none => .error (.syntactic (.missingSpeech name) t.position)
  | .divert target => .ok (.nothing (.statement (.divert target)) ts)
  | .script code => .ok (.nothing (.statement (.script code)) ts)
  | .symbol name =>
    (takeArguments t.line ts).map (·.map fun args => .statement (.call name args))
  | .string value => .error (.syntactic (.unexpected (.string value)) t.position)
  | .condition expr => .error (.syntactic (.unexpected (.condition expr)) t.position)

end Dialogue
