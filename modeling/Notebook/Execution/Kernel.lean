import Notebook.Execution.Event
import Notebook.Execution.Locks
import Notebook.Execution.Machine
import Notebook.Execution.Order
import Notebook.Execution.Workspace
import Notebook.Program.Prepared

/-!
Running cells. Each request goes through a pipeline of its own: it is prepared, waits for its key,
gets a workspace, runs the toolchain there, removes the workspace and gives the key back. Pipelines
go on in any order, one step at a time.
-/

namespace Notebook.Execution

open Files (Path Place Tree)
open Program (Manifest Prepared Shape Toolchain)

/-- What is the same for all requests. Paths start from `here`. -/
structure Settings where
  toolchain : Toolchain
  manifest : Manifest
  scratch : Path
  shape : Shape
  here : Place

/-- The output of a request, or why there is none. -/
abbrev Outcome := Except Failure Output

/-- How far a pipeline has come, with the processes of type `P`. -/
inductive Phase (P : Type) where
  | queued
  | started
  | waiting (prepared : Prepared)
  | holding (prepared : Prepared)
  | ready (workspace : Workspace)
  | running (workspace : Workspace) (process : P)
  | releasing (workspace : Workspace) (outcome : Outcome)
  /-- Waits for a removal, which is known by its number. -/
  | removing (removal : Nat) (outcome : Outcome)
  | unlocking (outcome : Outcome)
  | closing (outcome : Outcome)
  | finished (outcome : Outcome)
  | cancelled

structure Pipeline (P : Type) where
  document : Document
  record : Record
  phase : Phase P

/-- A request that has ended. -/
structure Finished where
  record : Record
  outcome : Outcome

def Pipeline.finished? {P : Type} (p : Pipeline P) : Option Finished :=
  match p.phase with
  | .finished o => some ⟨p.record, o⟩
  | _ => none

/-- A workspace to be removed. Others do this, even when nobody waits for it any more. -/
structure Removal where
  workspace : Workspace
  isDone : Bool

structure Kernel (P : Type) where
  tree : Tree
  locks : Locks
  pipelines : List (Pipeline P)
  removals : List Removal
  events : List Event
  counter : Counter

/-- What can happen next. -/
inductive Step where
  /-- A pipeline goes on, if it can. -/
  | advance (pipeline : Nat) (now : Moment)
  /-- A pipeline is given up where it waits. -/
  | cancel (pipeline : Nat)
  /-- A workspace is removed. -/
  | remove (removal : Nat)
  deriving DecidableEq, Repr

namespace Kernel

variable {P : Type}

def start (t : Tree) (c : Counter) : Kernel P := ⟨t, .empty, [], [], [], c⟩

def setPipeline (k : Kernel P) (i : Nat) (p : Pipeline P) : Kernel P :=
  { k with pipelines := k.pipelines.set i p }

def setPhase (k : Kernel P) (i : Nat) (p : Pipeline P) (f : Phase P) : Kernel P :=
  k.setPipeline i { p with phase := f }

def tell (k : Kernel P) (e : Event) : Kernel P := { k with events := k.events ++ [e] }

/-! ### Phases -/

def begin_ (now : Moment) (i : Nat) (p : Pipeline P) (k : Kernel P) : Kernel P :=
  match p.record.start now with
  | .error f => k.setPhase i p (.finished (.error f))
  | .ok r =>
    (k.setPipeline i { p with record := r, phase := .started }).tell (.started r.order r.cellIndex)

/-- Prepares the cell and asks for its key. -/
def ask (s : Settings) (i : Nat) (p : Pipeline P) (k : Kernel P) : Kernel P :=
  match Program.prepare s.shape s.manifest p.document p.record.cellIndex with
  | .error f => k.setPhase i p (.closing (.error f))
  | .ok q => { k with locks := k.locks.request i q.key }.setPhase i p (.waiting q)

def wait (i : Nat) (p : Pipeline P) (q : Prepared) (k : Kernel P) : Kernel P :=
  let locks := k.locks.poll i
  if locks.holds i then { k with locks }.setPhase i p (.holding q) else { k with locks }

def acquire (s : Settings) (i : Nat) (p : Pipeline P) (q : Prepared) (k : Kernel P) : Kernel P :=
  match Workspace.acquire k.tree s.here s.scratch q.key s.manifest q.program with
  | (tree, .ok w) => { k with tree }.setPhase i p (.ready w)
  | (tree, .error f) => { k with tree }.setPhase i p (.unlocking (.error f))

def launch (m : Machine) (s : Settings) (i : Nat) (p : Pipeline m.Job) (w : Workspace)
    (k : Kernel m.Job) : Kernel m.Job :=
  match m.start s.toolchain k.tree s.here w.root with
  | .ok process => k.setPhase i p (.running w process)
  | .error f => k.setPhase i p (.releasing w (.error (.spawn s.toolchain.program f)))

def work (m : Machine) (s : Settings) (i : Nat) (p : Pipeline m.Job) (w : Workspace)
    (process : m.Job) (k : Kernel m.Job) : Kernel m.Job :=
  match m.step process k.tree with
  | (tree, .inl process) => { k with tree }.setPhase i p (.running w process)
  | (tree, .inr c) => { k with tree }.setPhase i p (.releasing w (outcome s.toolchain c))

def release (i : Nat) (p : Pipeline P) (w : Workspace) (o : Outcome) (k : Kernel P) : Kernel P :=
  { k with removals := k.removals ++ [Removal.mk w false] }.setPhase i p (.removing k.removals.length o)

def awaitRemoval (i : Nat) (p : Pipeline P) (removal : Nat) (o : Outcome) (k : Kernel P) :
    Kernel P :=
  match k.removals[removal]? with
  | some ⟨_, true⟩ => k.setPhase i p (.unlocking o)
  | _ => k

def unlock (i : Nat) (p : Pipeline P) (o : Outcome) (k : Kernel P) : Kernel P :=
  { k with locks := k.locks.drop i }.setPhase i p (.closing o)

/-- Ends the record as the outcome says, and tells so. -/
def close (now : Moment) (i : Nat) (p : Pipeline P) (o : Outcome) (k : Kernel P) : Kernel P :=
  let ended := match o with
    | .ok _ => p.record.complete now
    | .error _ => p.record.fail now
  let (r, o) : Record × Outcome := match ended with
    | .ok r => (r, o)
    | .error f => (p.record, .error f)
  (k.setPipeline i { p with record := r, phase := .finished o }).tell
    (match o with
    | .ok _ => .completed r.order r.cellIndex
    | .error _ => .failed r.order r.cellIndex)

/-! ### Steps -/

def advance (m : Machine) (s : Settings) (now : Moment) (i : Nat) (k : Kernel m.Job) :
    Kernel m.Job :=
  match k.pipelines[i]? with
  | none => k
  | some p =>
    match p.phase with
    | .queued => k.begin_ now i p
    | .started => k.ask s i p
    | .waiting q => k.wait i p q
    | .holding q => k.acquire s i p q
    | .ready w => k.launch m s i p w
    | .running w process => k.work m s i p w process
    | .releasing w o => k.release i p w o
    | .removing removal o => k.awaitRemoval i p removal o
    | .unlocking o => k.unlock i p o
    | .closing o => k.close now i p o
    | .finished _ | .cancelled => k

/-- Gives a pipeline up. It ends its process, removes its workspace unless that has been handed
over already, and lets go of its key. -/
def cancel (here : Place) (i : Nat) (k : Kernel P) : Kernel P :=
  match k.pipelines[i]? with
  | none => k
  | some p =>
    match p.phase with
    | .queued => k.setPhase i p .cancelled
    | .waiting _ | .removing .. => { k with locks := k.locks.drop i }.setPhase i p .cancelled
    | .running w _ =>
      { k with tree := w.remove k.tree here, locks := k.locks.drop i }.setPhase i p .cancelled
    | _ => k

def remove (here : Place) (j : Nat) (k : Kernel P) : Kernel P :=
  match k.removals[j]? with
  | some ⟨w, false⟩ =>
    { k with tree := w.remove k.tree here, removals := k.removals.set j ⟨w, true⟩ }
  | _ => k

def step (m : Machine) (s : Settings) (k : Kernel m.Job) : Step → Kernel m.Job
  | .advance i now => k.advance m s now i
  | .cancel i => k.cancel s.here i
  | .remove j => k.remove s.here j

def run (m : Machine) (s : Settings) (k : Kernel m.Job) (steps : List Step) :
    Kernel m.Job :=
  steps.foldl (step m s) k

/-! ### Requests -/

def submit (k : Kernel P) (d : Document) (r : Record) : Kernel P :=
  { k with pipelines := k.pipelines ++ [⟨d, r, .queued⟩] }

/-- Requests for cells, all of them numbered before any starts. -/
def submitAll (k : Kernel P) (d : Document) (cells : List Nat) : Kernel P :=
  let (records, counter) := k.counter.triggerAll cells
  records.foldl (fun k r => k.submit d r) { k with counter }

/-- The requests from the one with number `first` on, once all have ended. -/
def finished? (k : Kernel P) (first : Nat) : Option (List Finished) :=
  (k.pipelines.drop first).mapM Pipeline.finished?

end Kernel

/-! ### Schedules -/

/-- The order in which things happen, given how many pipelines there are. -/
abbrev Schedule := Nat → List Step

namespace Schedule

/-- One step of each pipeline, and then all removals. -/
def round (now : Moment) (n : Nat) : List Step :=
  (List.range n).map (.advance · now) ++ (List.range n).map .remove

/-- Rounds until pipelines whose processes end in one step have ended, even if all want the same
key. -/
def fair (now : Moment) : Schedule := fun n =>
  (List.replicate (12 * (n + 1)) (round now n)).flatten

end Schedule

end Notebook.Execution
