import Notebook.Failure
import Notebook.Json.Structure
import Notebook.Json.Writer
import Notebook.Moment

namespace Notebook.Execution

/-- One request for a cell: its number among all requests, how far it has come, and when it started
and ended. -/
structure Record where
  cellIndex : Nat
  order : Nat
  state : State
  startedAt : Option Moment
  endedAt : Option Moment
  deriving DecidableEq, Repr

namespace Record

def queued (cellIndex order : Nat) : Record := ⟨cellIndex, order, .queued, none, none⟩

/-- The record in its next state, if that may follow. -/
def moveTo (r : Record) (s : State) : Except Failure Record :=
  if r.state.leadsTo s then .ok { r with state := s }
  else .error (.invalidTransition r.state s)

def start (r : Record) (now : Moment) : Except Failure Record :=
  (r.moveTo .running).map fun r => { r with startedAt := some now }

def complete (r : Record) (now : Moment) : Except Failure Record :=
  (r.moveTo .completed).map fun r => { r with endedAt := some now }

def fail (r : Record) (now : Moment) : Except Failure Record :=
  (r.moveTo .failed).map fun r => { r with endedAt := some now }

/-- The nanoseconds from start to end, once both are known. -/
def duration? (r : Record) : Option Int := do
  let ended ← r.endedAt
  let started ← r.startedAt
  return ended.since started

/-- The duration in whole milliseconds, rounded towards zero. -/
def milliseconds? (r : Record) : Option Int := r.duration?.map (·.tdiv 1_000_000)

/-! ### Written form -/

/-- The fields that have been read. -/
structure Draft where
  cellIndex : Option Nat := none
  order : Option Nat := none
  state : Option State := none
  startedAt : Option (Option Moment) := none
  endedAt : Option (Option Moment) := none

def moment : Json.Reader Moment :=
  Json.Reader.stringWith "an RFC 3339 formatted date and time string" fun s =>
    match Moment.parse s with
    | .ok t => .ok t
    | .error r => .error (.refused r.message)

/-- A time that is missing is not set. -/
def form : Json.Structure Draft Record where
  expected := "struct ExecutionRecord"
  start := {}
  fields :=
    [⟨"cell_index", (·.cellIndex.isSome), fun d => do
        return { d with cellIndex := ← Json.Reader.natural "usize" }⟩,
     ⟨"order", (·.order.isSome), fun d => do
        return { d with order := ← Json.Reader.natural "u64" }⟩,
     ⟨"state", (·.state.isSome), fun d => do
        let state ← Json.Reader.variant (State.all.map fun s => (s.name, s))
        return { d with state := state }⟩,
     ⟨"started_at", (·.startedAt.isSome), fun d => do
        let time ← Json.Reader.optional moment
        return { d with startedAt := some time }⟩,
     ⟨"ended_at", (·.endedAt.isSome), fun d => do
        let time ← Json.Reader.optional moment
        return { d with endedAt := some time }⟩]
  finish d :=
    match d.cellIndex, d.order, d.state with
    | none, _, _ => .error "cell_index"
    | _, none, _ => .error "order"
    | _, _, none => .error "state"
    | some i, some n, some s => .ok ⟨i, n, s, d.startedAt.getD none, d.endedAt.getD none⟩

def parse (s : List Char) : Except Json.Problem Record := Json.Reader.run (.structured form) s

def timeValue : Option Moment → Json.Value
  | some t => .string t.text
  | none => .null

def toValue (r : Record) : Json.Value :=
  .object
    [("cell_index".toList, .number (.integer r.cellIndex)),
     ("order".toList, .number (.integer r.order)),
     ("state".toList, .string r.state.name.toList),
     ("started_at".toList, timeValue r.startedAt),
     ("ended_at".toList, timeValue r.endedAt)]

end Record

end Notebook.Execution
