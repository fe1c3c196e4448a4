import StockFlow.Engine.Fault
import Std.Data.TreeMap

/-!
# The board of overrides

Simulations share a board on which each of them can pin values for its own variables. Asked for the
value of a variable, the board answers with what the asking simulation has pinned, and else with its
default. A board that is closed answers nothing any more.

The requests reach the board one after the other, whoever sends them. A board may also be made to
close by itself after some requests: this stands for one that is closed by someone else in the
middle of a simulation's work.

* `Board.serve` — the answer to a request and the board after it
-/

namespace StockFlow

/-- The number that tells simulations apart. -/
abbrev SimId := Nat

/-- What simulations have pinned, and how long the board stays open. -/
structure Board (α : Type) where
  pinned : Std.TreeMap SimId (Std.TreeMap String α)
  /-- How many more requests are answered; without a number all are. -/
  remaining : Option Nat

/-- What can be asked of a board. -/
inductive Request (α : Type) where
  | get (sim : SimId) (defaults : Std.TreeMap String α) (name : String)
  | set (sim : SimId) (name : String) (value : α)
  | forget (sim : SimId)
  | close

/-- What a board answers. -/
inductive Reply (α : Type) where
  | value (x : Option α)
  | done
  /-- The board is closed. -/
  | refused
  deriving Repr

namespace Board

variable {α : Type}

/-- An open board with nothing on it. -/
def empty : Board α := ⟨∅, none⟩

/-- Whether a board answers. -/
def isOpen (b : Board α) : Bool := b.remaining != some 0

/-- A board that answers no more. -/
def close (b : Board α) : Board α := { b with remaining := some 0 }

/-- What a simulation has pinned for a variable. -/
def pinned? (b : Board α) (sim : SimId) (name : String) : Option α :=
  b.pinned[sim]?.bind fun values => values[name]?

/-- The value of a variable for a simulation. -/
def lookup (b : Board α) (sim : SimId) (defaults : Std.TreeMap String α) (name : String) :
    Option α :=
  b.pinned? sim name <|> defaults[name]?

/-- Pins a value. -/
def pin (b : Board α) (sim : SimId) (name : String) (value : α) : Board α :=
  { b with pinned := b.pinned.insert sim ((b.pinned.getD sim ∅).insert name value) }

/-- Takes down all that a simulation has pinned. -/
def unpin (b : Board α) (sim : SimId) : Board α := { b with pinned := b.pinned.erase sim }

/-- Counts a request. -/
def tick (b : Board α) : Board α := { b with remaining := b.remaining.map fun n => n - 1 }

/-- What an open board answers, and the board after it. -/
def answer (b : Board α) : Request α → Reply α × Board α
  | .get sim defaults name => (.value (b.lookup sim defaults name), b)
  | .set sim name value => (.done, b.pin sim name value)
  | .forget sim => (.done, b.unpin sim)
  | .close => (.done, b.close)

/-- **The answer to a request and the board after it.** A closed board refuses and does not
change. -/
def serve (b : Board α) (r : Request α) : Reply α × Board α :=
  if b.isOpen then b.tick.answer r else (.refused, b)

/-! ## Requests of a simulation -/

/-- Asks for the value of a variable. -/
def get (b : Board α) (sim : SimId) (defaults : Std.TreeMap String α) (name : String) :
    Except RunFault (Option α) × Board α :=
  match b.serve (.get sim defaults name) with
  | (.value x, b) => (.ok x, b)
  | (.done, b) => (.ok none, b)
  | (.refused, b) => (.error (.stopped name), b)

/-- Asks to pin a value. -/
def set (b : Board α) (sim : SimId) (name : String) (value : α) :
    Except RunFault Unit × Board α :=
  match b.serve (.set sim name value) with
  | (.refused, b) => (.error (.stopped name), b)
  | (_, b) => (.ok (), b)

/-- Asks to take down all that a simulation has pinned. Nothing is lost if nobody answers. -/
def forget (b : Board α) (sim : SimId) : Board α := (b.serve (.forget sim)).2

end Board

end StockFlow
