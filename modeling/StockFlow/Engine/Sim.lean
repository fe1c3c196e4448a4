import StockFlow.Engine.Board
import StockFlow.Engine.Report
import StockFlow.Equation.Model

/-!
# Simulations

A simulation holds the present values of a model's variables and moves them on in time, step by
step. Each step first computes what the stocks become, then from them all other variables.

What a simulation does can be cut short where the board of overrides does not answer. It then stays
in the state it had reached.

* `Sim.start` — computes the starting values
* `Sim.advance` — makes one step
* `Sim.runTo` — makes steps up to a time
* `Sim.setValue` — sets the value of a variable from outside
-/

namespace StockFlow

/-- How far a simulation has come. -/
inductive Phase where
  /-- Nothing is computed yet. -/
  | fresh
  /-- The starting values are computed. -/
  | initialized
  | stepping
  /-- The end is reached. -/
  | complete
  deriving DecidableEq, Repr

/-- The name of the current time. -/
def timeName : String := "time"

/-- A simulation. -/
structure Sim (α : Type) where
  id : SimId
  /-- The name of the simulation, under which its variables are reported. -/
  label : String
  model : Model α
  spec : Timespec α
  /-- How many steps lie between two records. -/
  saveEvery : Nat
  /-- The present values. -/
  values : Values α
  report : Report α
  /-- How many steps were made. -/
  step : Nat
  phase : Phase

/-- Where a simulation came to, with the board at that moment, and what stopped it if it did not get
through. -/
structure Reached (α : Type) where
  sim : Sim α
  board : Board α
  fault : Option RunFault

namespace Reached

variable {α : Type}

/-- Goes on from where a simulation came to, unless it was stopped. -/
def andThen (r : Reached α) (next : Sim α → Board α → Reached α) : Reached α :=
  match r.fault with
  | none => next r.sim r.board
  | some _ => r

end Reached

namespace Sim

variable {α : Type}

/-- A new simulation. It knows the time and nothing else. -/
def create (id : SimId) (label : String) (model : Model α) (spec : Timespec α) (saveEvery : Nat) :
    Sim α where
  id
  label
  model
  spec
  saveEvery
  values := (∅ : Values α).insert timeName spec.start
  report := .empty label model.recorded
  step := 0
  phase := .fresh

/-- The current time. -/
def time (s : Sim α) : α := s.values.getD timeName s.spec.start

/-- The present value of a variable. -/
def value (s : Sim α) (name : String) : Except RunFault α :=
  match s.values[name]? with
  | some x => .ok x
  | none => .error (.unknownVariable s.label name)

/-- The recorded times, and the recorded values of a variable. -/
def series (s : Sim α) (name : String) : Except RunFault (List α × List α) :=
  if name = timeName then .ok (s.report.times, s.report.times)
  else
    match s.report.series name with
    | some values => .ok (s.report.times, values)
    | none => .error (.unknownVariable s.label name)

/-- Gives a variable a present value. -/
def assign (s : Sim α) (name : String) (x : α) : Sim α :=
  { s with values := s.values.insert name x }

variable [Scalar α]

/-! ## Computing -/

/-- The value of a formula in the present state. Defaults are asked of the board, from left to
right. -/
def eval (s : Sim α) : Formula α → Board α → Except RunFault α × Board α
  | .const x, board => (.ok x, board)
  | .var name, board => (s.value name, board)
  | .default name, board =>
    match board.get s.id s.model.defaults name with
    | (.ok (some x), board) => (.ok x, board)
    | (.ok none, board) => (.error (.unknownVariable s.label name), board)
    | (.error fault, board) => (.error fault, board)
  | .dt, board => (.ok s.spec.dt, board)
  | .negate x, board =>
    match s.eval x board with
    | (.ok x, board) => (.ok (Scalar.neg x), board)
    | (.error fault, board) => (.error fault, board)
  | .binary op l r, board =>
    match s.eval l board with
    | (.error fault, board) => (.error fault, board)
    | (.ok x, board) =>
      match s.eval r board with
      | (.error fault, board) => (.error fault, board)
      | (.ok y, board) => (.ok (Scalar.operate op x y), board)
  | .lookup table index, board =>
    match s.eval index board with
    | (.error fault, board) => (.error fault, board)
    | (.ok x, board) =>
      match s.model.equations.tables[table]? with
      | some t => (.ok (t.lookup x), board)
      | none => (.error (.unknownVariable s.label table), board)
  | .pi, board => (.ok Scalar.pi, board)
  | .apply1 f x, board =>
    match s.eval x board with
    | (.ok x, board) => (.ok (Scalar.unary f x), board)
    | (.error fault, board) => (.error fault, board)
  | .apply2 f x y, board =>
    match s.eval x board with
    | (.error fault, board) => (.error fault, board)
    | (.ok x, board) =>
      match s.eval y board with
      | (.error fault, board) => (.error fault, board)
      | (.ok y, board) => (.ok (Scalar.binary f x y), board)

/-- Works off rules in order. Each sees the values that those before it gave. -/
def apply (s : Sim α) (board : Board α) : List (Rule α) → Reached α
  | [] => ⟨s, board, none⟩
  | r :: rules =>
    match s.eval r.formula board with
    | (.ok x, board) => (s.assign r.name x).apply board rules
    | (.error fault, board) => ⟨s, board, some fault⟩

/-- The values of rules that all see the present state. -/
def evalAll (s : Sim α) (board : Board α) (found : Values α) :
    List (Rule α) → Except RunFault (Values α) × Board α
  | [] => (.ok found, board)
  | r :: rules =>
    match s.eval r.formula board with
    | (.ok x, board) => s.evalAll board (found.insert r.name x) rules
    | (.error fault, board) => (.error fault, board)

/-! ## Stepping -/

/-- Records the present state. -/
def save (s : Sim α) : Sim α :=
  let value name := s.values.getD name Scalar.undefined
  { s with report := s.report.push (value timeName) value }

/-- Computes the starting values and records them. -/
def start (s : Sim α) (board : Board α) : Reached α :=
  ((s.apply board s.model.equations.initials).andThen fun s board =>
    s.apply board s.model.equations.flows).andThen fun s board =>
      ⟨{ s.save with phase := .initialized }, board, none⟩

/-- Records the present state if it is time to. -/
def saveIfDue (s : Sim α) : Sim α := if s.step % s.saveEvery = 0 then s.save else s

/-- The time after a step. -/
def nextTime (s : Sim α) : α := Scalar.add s.time s.spec.dt

/-- Makes one step. -/
def advance (s : Sim α) (board : Board α) : Reached α :=
  match s.evalAll board ∅ s.model.equations.stocks with
  | (.error fault, board) => ⟨s, board, some fault⟩
  | (.ok stocks, board) =>
    let moved := { s with values := stocks.insert timeName s.nextTime, step := s.step + 1 }
    (moved.apply board s.model.equations.flows).andThen fun s board =>
      ⟨{ s.saveIfDue with phase := .stepping }, board, none⟩

/-- Half a step behind a time. The ends of runs are moved by that much, so that rounding does not
cost a step. -/
def nudged (s : Sim α) (time : α) : α := Scalar.add time (Scalar.half s.spec.dt)

/-- Whether the next step would lead past a time. -/
def wouldPass (s : Sim α) (time : α) : Bool := Scalar.less (s.nudged time) s.nextTime

/-- Makes steps until the next would lead past `target` or the end, at most `fuel` of them. There is
no answer if they are not enough. -/
def stepTo (target : α) : Nat → Sim α → Board α → Option (Reached α)
  | 0, _, _ => none
  | fuel + 1, s, board =>
    if s.wouldPass s.spec.stop then some ⟨{ s with phase := .complete }, board, none⟩
    else if s.wouldPass target then some ⟨s, board, none⟩
    else
      let r := s.advance board
      match r.fault with
      | none => stepTo target fuel r.sim r.board
      | some _ => some r

/-- Makes a simulation ready to step. -/
def prepare (s : Sim α) (board : Board α) : Reached α :=
  if s.phase = .fresh then s.start board else ⟨s, board, none⟩

/-- **Runs a simulation to a time,** or to its end if that comes before. There is no answer if that
takes more than `fuel` steps. -/
def runTo (fuel : Nat) (target : α) (s : Sim α) (board : Board α) : Option (Reached α) :=
  if s.phase = .complete then some ⟨s, board, none⟩
  else
    let r := s.prepare board
    match r.fault with
    | none => stepTo target fuel r.sim r.board
    | some _ => some r

/-- Runs a simulation to its end. -/
def runToEnd (fuel : Nat) (s : Sim α) (board : Board α) : Option (Reached α) :=
  s.runTo fuel s.spec.stop board

omit [Scalar α] in
/-- **Sets the value of a variable from outside.** It counts from the next time that the variable is
computed, and at once where something is computed already. -/
def setValue (s : Sim α) (name : String) (x : α) (board : Board α) : Reached α :=
  if !s.model.declares name then ⟨s, board, some (.unknownVariable s.label name)⟩
  else if !s.model.isOverridable name then ⟨s, board, some (.notOverridable s.label name)⟩
  else
    match board.set s.id name x with
    | (.error fault, board) => ⟨s, board, some fault⟩
    | (.ok _, board) => ⟨if s.phase = .fresh then s else s.assign name x, board, none⟩

end Sim

end StockFlow
