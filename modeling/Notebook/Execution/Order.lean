import Notebook.Execution.Record

/-!
The numbers of requests. A counter hands them out from one on; several users may draw from the same
counter.
-/

namespace Notebook.Execution

/-- The last number handed out, zero before the first. -/
structure Counter where
  last : Nat
  deriving DecidableEq, Repr

namespace Counter

def fresh : Counter := ⟨0⟩

def next (c : Counter) : Nat × Counter := (c.last + 1, ⟨c.last + 1⟩)

/-- A request for a cell, with the next number. -/
def trigger (c : Counter) (cell : Nat) : Record × Counter :=
  (.queued cell c.next.1, c.next.2)

/-- Requests for cells, numbered in the order of the list. -/
def triggerAll (c : Counter) : List Nat → List Record × Counter
  | [] => ([], c)
  | i :: is => ((c.trigger i).1 :: ((c.trigger i).2.triggerAll is).1,
      ((c.trigger i).2.triggerAll is).2)

end Counter

/-- Counters, and for each user the place of the counter that it draws from. -/
structure Counters where
  counters : List Counter
  users : List Nat
  deriving DecidableEq, Repr

namespace Counters

/-- One counter with one user. -/
def single : Counters := ⟨[.fresh], [0]⟩

/-- A new counter with a user of its own, who comes last. -/
def create (c : Counters) : Counters :=
  ⟨c.counters ++ [.fresh], c.users ++ [c.counters.length]⟩

/-- A new user of the counter of `u`. -/
def share (c : Counters) (u : Nat) : Option Counters :=
  c.users[u]?.map fun k => ⟨c.counters, c.users ++ [k]⟩

def counter? (c : Counters) (u : Nat) : Option Counter := do c.counters[← c.users[u]?]?

/-- Lets `u` do something with its counter. -/
def use {α : Type} (c : Counters) (u : Nat) (f : Counter → α × Counter) : Option (α × Counters) := do
  let k ← c.users[u]?
  let (a, n) := f (← c.counters[k]?)
  return (a, { c with counters := c.counters.set k n })

end Counters

end Notebook.Execution
