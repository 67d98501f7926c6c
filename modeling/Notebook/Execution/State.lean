namespace Notebook.Execution

inductive State where
  | queued
  | running
  | completed
  | failed
  deriving DecidableEq, Repr

namespace State

def name : State → String
  | queued => "Queued"
  | running => "Running"
  | completed => "Completed"
  | failed => "Failed"

def all : List State := [queued, running, completed, failed]

def ofName? (s : String) : Option State := all.find? (·.name = s)

/-- Nothing follows these. -/
def isTerminal : State → Bool
  | completed | failed => true
  | _ => false

def leadsTo : State → State → Bool
  | queued, running | running, completed | running, failed => true
  | _, _ => false

theorem leadsTo_of_isTerminal {s : State} (h : s.isTerminal = true) (t : State) :
    s.leadsTo t = false := by
  cases s <;> cases t <;> simp_all [isTerminal, leadsTo]

end State

end Notebook.Execution
