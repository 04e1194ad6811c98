import Dialogue.Script.Scope

/-!
# From tokens to segments

Clause by clause: each one is read off the tokens, then taken into the state.  The first clause that
cannot be read or does not fit ends the work; the events up to there are kept.
-/

namespace Dialogue

/-- The state after the clauses of `ts`; `stop` is where errors at the end of the tokens are
reported. -/
def State.run (stop : Position) (st : State) (ts : List Token) : Logged State :=
  match ts with
  | [] => ⟨[], .ok st⟩
  | t :: ts =>
    match takeClause stop t ts with
    | .error e => .fail e
    | .ok clause =>
      match st.step t.position clause.value with
      | .error e => .fail e
      | .ok (next, events) => (State.run stop next clause.rest).after events
termination_by ts.length
decreasing_by
  have hle := clause.length_le
  rw [List.length_cons]
  omega

/-- The position of the last token. -/
def lastPosition (ts : List Token) : Position :=
  match ts.getLast? with
  | some t => t.position
  | none => ⟨0, 0⟩

/-- The segments that tokens denote, with the events on the way. -/
def parseLogged (ts : List Token) : Logged (List Segment) :=
  (State.initial.run (lastPosition ts) ts).andThen fun st =>
    .record (fun segments => .parsed segments.length) st.finish

/-- The segments that tokens denote. -/
def parse (ts : List Token) : Except Error (List Segment) :=
  (parseLogged ts).result

end Dialogue
