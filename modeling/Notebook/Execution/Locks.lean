import Notebook.Program.Key

/-!
One lock for each key in use. A request that finds the lock taken waits in line. A lock that is let
go of belongs to the first in line at once, even before it asks again.
-/

namespace Notebook.Execution

/-- A lock, the request that it belongs to, and those in line. -/
structure Mutex where
  owner : Option Nat
  queue : List Nat
  deriving DecidableEq, Repr

namespace Mutex

def free : Mutex := ⟨none, []⟩

/-- Asks for the lock, or gets in line. -/
def request (m : Mutex) (id : Nat) : Mutex :=
  match m.owner with
  | none => { m with owner := some id }
  | some _ => { m with queue := m.queue ++ [id] }

/-- Passes the lock on, or gets out of line. -/
def leave (m : Mutex) (id : Nat) : Mutex :=
  if m.owner = some id then ⟨m.queue.head?, m.queue.tail⟩
  else { m with queue := m.queue.filter (· ≠ id) }

end Mutex

/-- What the table holds for a key: the place of its lock, and how many use it. -/
structure Slot where
  mutex : Nat
  users : Nat
  deriving DecidableEq, Repr

/-- A request that is alive: its key, the place of the lock that it asked for, and whether it has
been told that the lock is its own. -/
structure User where
  key : Program.Key
  mutex : Nat
  isHolder : Bool
  deriving DecidableEq, Repr

/-- All locks ever made, the table of those in use, and the requests that are alive. -/
structure Locks where
  mutexes : List Mutex
  slots : List (Program.Key × Slot)
  users : List (Nat × User)
  deriving DecidableEq, Repr

namespace Locks

def empty : Locks := ⟨[], [], []⟩

def slot? (l : Locks) (k : Program.Key) : Option Slot := l.slots.lookup k

def user? (l : Locks) (id : Nat) : Option User := l.users.lookup id

def putSlot (l : Locks) (k : Program.Key) (s : Slot) : Locks :=
  { l with slots := (k, s) :: l.slots.filter (·.1 ≠ k) }

def eraseSlot (l : Locks) (k : Program.Key) : Locks :=
  { l with slots := l.slots.filter (·.1 ≠ k) }

def putUser (l : Locks) (id : Nat) (u : User) : Locks :=
  { l with users := (id, u) :: l.users.filter (·.1 ≠ id) }

def eraseUser (l : Locks) (id : Nat) : Locks :=
  { l with users := l.users.filter (·.1 ≠ id) }

def changeMutex (l : Locks) (m : Nat) (f : Mutex → Mutex) : Locks :=
  { l with mutexes := l.mutexes.modify m f }

/-- Adds a user to the slot of a key, which is made if there is none. -/
def enter (l : Locks) (k : Program.Key) : Locks × Nat :=
  match l.slot? k with
  | some s => (l.putSlot k { s with users := s.users + 1 }, s.mutex)
  | none =>
    let m := l.mutexes.length
    ({ l with mutexes := l.mutexes ++ [Mutex.free] }.putSlot k ⟨m, 1⟩, m)

/-- Takes a user away from the slot of a key. The last one takes the slot along. -/
def exit (l : Locks) (k : Program.Key) : Locks :=
  match l.slot? k with
  | none => l
  | some s =>
    if s.users - 1 = 0 then l.eraseSlot k else l.putSlot k { s with users := s.users - 1 }

/-- Asks whether the lock has come to `id`. -/
def poll (l : Locks) (id : Nat) : Locks :=
  match l.user? id with
  | none => l
  | some u =>
    match l.mutexes[u.mutex]? with
    | none => l
    | some m => if m.owner = some id then l.putUser id { u with isHolder := true } else l

/-- Starts to ask for the lock of a key. The number is one that nobody has. -/
def request (l : Locks) (id : Nat) (k : Program.Key) : Locks :=
  let (l, m) := l.enter k
  ((l.changeMutex m (·.request id)).putUser id ⟨k, m, false⟩).poll id

/-- Gives up a lock or a place in line. -/
def drop (l : Locks) (id : Nat) : Locks :=
  match l.user? id with
  | none => l
  | some u => ((l.changeMutex u.mutex (·.leave id)).exit u.key).eraseUser id

def holds (l : Locks) (id : Nat) : Bool :=
  match l.user? id with
  | some u => u.isHolder
  | none => false

/-- How many keys are in use. -/
def inFlight (l : Locks) : Nat := l.slots.length

end Locks

end Notebook.Execution
