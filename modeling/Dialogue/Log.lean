import Dialogue.Error

/-!
# The log

The stages of compilation record what they did.  A record is an `Event`; an outcome together with
the events on the way to it is a `Logged`.  The events in front of a failure are kept, so a log
always tells how far a script was understood.
-/

namespace Dialogue

/-! ### Events -/

/-- Something that a stage records. -/
inductive Event where
  /-- A script of so many lines has been read into so many tokens. -/
  | tokenized (lines tokens : Nat)
  /-- An `if` has been opened, and so many conditionals are open now. -/
  | opened (depth : Nat)
  /-- An `elif` has been opened inside the branch it continues. -/
  | chained (depth : Nat)
  /-- One of so many open conditionals has been closed. -/
  | closed (depth : Nat)
  /-- So many segments have been found. -/
  | parsed (segments : Nat)
  /-- Code of so many bytes has been written for so many segments. -/
  | generated (bytes segments : Nat)
deriving DecidableEq, Repr

/-- An event as the log shows it: its level, then what happened. -/
def Event.text : Event → String
  | tokenized l t =>
    "DEBUG tokenized " ++ Nat.repr l ++ " lines into " ++ Nat.repr t ++ " tokens"
  | opened d => "TRACE open conditional, depth " ++ Nat.repr d
  | chained d => "TRACE chain elif, depth " ++ Nat.repr d
  | closed d => "TRACE close conditional, depth " ++ Nat.repr d
  | parsed n => "DEBUG parsed " ++ Nat.repr n ++ " segments"
  | generated b n =>
    "DEBUG generated " ++ Nat.repr b ++ " bytes for " ++ Nat.repr n ++ " segments"

/-! ### Outcomes with a log -/

/-- The outcome of a stage and the events on the way to it. -/
structure Logged (α : Type) where
  log : List Event
  result : Except Error α

namespace Logged

variable {α β : Type}

/-- A failure without events. -/
def fail (e : Error) : Logged α :=
  ⟨[], .error e⟩

/-- Puts events in front of an outcome. -/
def after (events : List Event) (x : Logged α) : Logged α :=
  ⟨events ++ x.log, x.result⟩

/-- An outcome that records one event if it is a success. -/
def record (event : α → Event) : Except Error α → Logged α
  | .ok a => ⟨[event a], .ok a⟩
  | .error e => ⟨[], .error e⟩

/-- Goes on with a success; the events of a failure stay. -/
def andThen (x : Logged α) (f : α → Logged β) : Logged β :=
  match x.result with
  | .ok a => (f a).after x.log
  | .error e => ⟨x.log, .error e⟩

end Logged

end Dialogue
