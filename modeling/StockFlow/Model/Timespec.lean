import StockFlow.Decimal.Notation
import StockFlow.Tree.Expr

/-!
# Time specifications

The span of time that a model covers, the step of its computation and how often it is recorded. A
model gives it as a structured value under the name `timespec`.

* `Timespec.check` — what a time specification has to satisfy
* `Timespec.ofValue` — reads a time specification from the value a model gives
* `Timespec.saveEvery` — how many steps lie between records
-/

namespace StockFlow

/-- From `start` to `stop` in steps of `dt`, recorded every `saveStep`. -/
structure Timespec (α : Type) where
  start : α
  stop : α
  dt : α
  saveStep : α
  deriving Repr

namespace Timespec

/-! ## What can be wrong -/

/-- The entries of a time specification. -/
inductive Key where
  | start
  | stop
  | dt
  | saveStep
  deriving DecidableEq, Repr

/-- How an entry is written. -/
def Key.name : Key → String
  | start => "start"
  | stop => "end"
  | dt => "dt"
  | saveStep => "save_step"

/-- The entry written so. -/
def Key.ofName? (name : String) : Option Key :=
  [start, stop, dt, saveStep].find? fun k => k.name = name

/-- What is wrong with a time specification or the value it is read from. -/
inductive Fault where
  /-- It is declared and never given. -/
  | unassigned (model : String)
  | notComposite (model : String) (value : Expr)
  | unexpectedElement (element : Expr)
  | unknownKey (key : String)
  | repeatedKey (key : Key)
  | notConstant (key : Key) (value : Expr)
  | missing (key : Key)
  | notFinite (key : Key) (value : Float)
  | notPositive (key : Key) (value : Float)
  /-- The end lies before the start. -/
  | reversed (stop start : Float)
  /-- The step is lost in the largest time. -/
  | tooSmall (dt furthest : Float)
  deriving Repr

/-- What is said about a fault. -/
def Fault.message : Fault → String
  | unassigned model => s!"{model}: timespec is declared but never assigned"
  | notComposite model value =>
    s!"{model}: timespec must be a composite literal, not '{value.text}'"
  | unexpectedElement element => s!"unexpected timespec element '{element.text}'"
  | unknownKey key => s!"timespec has unknown key '{key}'"
  | repeatedKey key => s!"timespec key '{key.name}' given twice"
  | notConstant key value =>
    s!"timespec {key.name} must be a numeric constant, not '{value.text}'"
  | missing key => s!"timespec is missing '{key.name}'"
  | notFinite key value => s!"{key.name} must be finite, not {Decimal.plain value}"
  | notPositive key value => s!"{key.name} must be positive, not {Decimal.plain value}"
  | reversed stop start => s!"end ({Decimal.plain stop}) is before start ({Decimal.plain start})"
  | tooSmall dt furthest =>
    s!"dt {Decimal.plain dt} is too small to advance time past {Decimal.plain furthest}"

/-! ## Checking -/

/-- The value of an entry. -/
def get {α : Type} (spec : Timespec α) : Key → α
  | .start => spec.start
  | .stop => spec.stop
  | .dt => spec.dt
  | .saveStep => spec.saveStep

/-- The larger of two numbers that are not NaN. -/
def larger (x y : Float) : Float := if x < y then y else x

/-- The time farthest from zero. -/
def furthest (spec : Timespec Float) : Float := larger spec.start.abs spec.stop.abs

/-- The first thing wrong with a time specification: every entry has to be finite, both steps
positive, the end not before the start, and the step large enough to move the largest time. -/
def fault? (spec : Timespec Float) : Option Fault :=
  match [Key.start, .stop, .dt, .saveStep].find? fun k => !(spec.get k).isFinite with
  | some key => some (.notFinite key (spec.get key))
  | none =>
    if !(0 < spec.dt) then some (.notPositive .dt spec.dt)
    else if !(0 < spec.saveStep) then some (.notPositive .saveStep spec.saveStep)
    else if !(spec.start ≤ spec.stop) then some (.reversed spec.stop spec.start)
    else if spec.furthest + spec.dt == spec.furthest then some (.tooSmall spec.dt spec.furthest)
    else none

/-- A time specification that nothing is wrong with. -/
def check (spec : Timespec Float) : Except Fault (Timespec Float) :=
  match spec.fault? with
  | some fault => .error fault
  | none => .ok spec

/-! ## Recording -/

/-- The largest count of steps. -/
def maxCount : Nat := 0xFFFFFFFFFFFFFFFF

/-- How many steps lie between two records: the nearest whole number, and one at least. -/
def saveEvery (spec : Timespec Float) : Nat :=
  match Decimal.Binary64.decode (spec.saveStep / spec.dt) with
  | .nan => 0
  | .infinite negative => if negative then 1 else maxCount
  | .finite negative m q =>
    if negative then 1 else min (max (Decimal.Binary64.nearestNat m q) 1) maxCount

/-- Whether the record step is a multiple of the step, up to rounding. -/
def isAligned (spec : Timespec Float) : Bool :=
  let ratio := spec.saveStep / spec.dt
  (ratio - ratio.round).abs < 1e-9

/-! ## Reading -/

/-- The entries given so far. -/
abbrev Entries := List (Key × Float)

/-- Adds an element of the structured value to the entries. -/
def Entries.add (entries : Entries) (element : Expr) : Except Fault Entries :=
  match element with
  | .keyed name value _ =>
    match Key.ofName? name with
    | none => .error (.unknownKey name)
    | some key =>
      if (entries.lookup key).isSome then .error (.repeatedKey key)
      else
        match value.constant? with
        | some x => .ok ((key, x) :: entries)
        | none => .error (.notConstant key value)
  | other => .error (.unexpectedElement other)

/-- An entry that has to be given. -/
def Entries.required (entries : Entries) (key : Key) : Except Fault Float :=
  match entries.lookup key with
  | some x => .ok x
  | none => .error (.missing key)

/-- The time specification of the entries. It is recorded at every step unless a record step is
given. -/
def ofEntries (entries : Entries) : Except Fault (Timespec Float) := do
  let start ← entries.required .start
  let stop ← entries.required .stop
  let dt ← entries.required .dt
  check ⟨start, stop, dt, (entries.lookup .saveStep).getD dt⟩

/-- Reads the time specification from the value that a model gives. -/
def ofValue (model : String) (value : Expr) : Except Fault (Timespec Float) :=
  match value.stripUnits with
  | .composite none elements _ => do ofEntries (← elements.foldlM Entries.add [])
  | other => .error (.notComposite model other)

end Timespec

end StockFlow
