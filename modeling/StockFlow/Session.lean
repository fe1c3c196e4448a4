import StockFlow.Project

/-!
# Sessions

In a session several simulations of one project stand side by side. They share the board of
overrides and nothing else. Each is told apart by a number that is never given twice.

* `Session.instantiate` — starts a simulation
* `Session.run`, `Session.setValue` — work on one simulation
* `Session.drop` — ends a simulation and takes down what it has pinned
* `Session.close` — closes the project and with it the board
-/

namespace StockFlow

/-- A project with its simulations. -/
structure Session where
  /-- The project, until it is closed. -/
  project : Option Project
  board : Board Float
  /-- The number of the next simulation. -/
  nextId : SimId
  /-- The simulations by the handles that their users know them by. -/
  sims : Std.TreeMap String (Sim Float)

namespace Session

/-- A session without simulations. -/
def ofProject (p : Project) : Session := ⟨some p, .empty, 0, ∅⟩

/-- The simulation behind a handle. -/
def sim? (s : Session) (handle : String) : Option (Sim Float) := s.sims[handle]?

/-- Ends a simulation. -/
def drop (s : Session) (handle : String) : Session :=
  match s.sim? handle with
  | some sim => { s with board := s.board.forget sim.id, sims := s.sims.erase handle }
  | none => s

/-- Closes the project. Its simulations stay, but the board answers them no more. -/
def close (s : Session) : Session := { s with project := none, board := s.board.close }

/-- Puts a new simulation behind a handle. One that stood there ends. -/
def install (s : Session) (handle : String) (sim : Sim Float) : Session :=
  let s := s.drop handle
  { s with nextId := s.nextId + 1, sims := s.sims.insert handle sim }

/-- Starts a simulation of a model, over its own span of time unless one is given. -/
def instantiate (s : Session) (p : Project) (handle model label : String)
    (spec : Option (Timespec Float)) : Except ModelFault Session := do
  let sim ← match spec with
    | some spec => p.instantiateWith s.nextId model label spec
    | none => p.instantiate s.nextId model label
  return s.install handle sim

/-- Takes over where a simulation came to. -/
def accept (s : Session) (handle : String) (r : Reached Float) : Option RunFault × Session :=
  (r.fault, { s with board := r.board, sims := s.sims.insert handle r.sim })

/-- Runs a simulation to a time, in at most `fuel` steps. -/
def run (s : Session) (fuel : Nat) (handle : String) (sim : Sim Float) (target : Float) :
    Option (Option RunFault × Session) :=
  (sim.runTo fuel target s.board).map (s.accept handle)

/-- Sets the value of a variable of a simulation. -/
def setValue (s : Session) (handle : String) (sim : Sim Float) (name : String) (x : Float) :
    Option RunFault × Session :=
  s.accept handle (sim.setValue name x s.board)

end Session

end StockFlow
