import StockFlow.Model.Scope
import StockFlow.Model.Typing

/-!
# Analysis of a model

A model is looked at in three steps: its time specification, its names, its kinds. The first fault
found is the model's.
-/

namespace StockFlow

/-- What is known of a model that nothing is wrong with. -/
structure Analysis where
  definition : Definition
  timespec : Option (Timespec Float)
  scope : Scope
  kinds : Kinds
  deriving Repr

/-- What deserves attention though nothing is wrong. -/
inductive Warning where
  /-- The record step is not a multiple of the step. -/
  | unaligned (model : String) (spec : Timespec Float)
  | noTimespec (model : String)
  deriving Repr

/-- What is said as a warning. -/
def Warning.message : Warning → String
  | unaligned model spec =>
    s!"warning: {model}: save_step {Decimal.plain spec.saveStep} is not a multiple of dt "
      ++ s!"{Decimal.plain spec.dt}, saving every {spec.saveEvery} steps"
  | noTimespec model =>
    s!"warning: model '{model}' has no timespec and can only be simulated with an explicit one"

namespace Definition

/-- The time specification of a model, if it gives one. -/
def timespec (d : Definition) : Except Timespec.Fault (Option (Timespec Float)) :=
  match d.timespecStmt? with
  | none => .ok none
  | some s =>
    match s.value with
    | none => .error (.unassigned d.name)
    | some value => some <$> Timespec.ofValue d.name value

/-- What is to be said about the time specification. -/
def timespecWarnings (d : Definition) : List Warning :=
  match d.timespec with
  | .ok (some spec) => if spec.isAligned then [] else [.unaligned d.name spec]
  | _ => []

/-- **Looks at a model.** -/
def analyze (d : Definition) : Except ModelFault Analysis := do
  let timespec ← d.timespec.mapError ModelFault.timespec
  let scope ← d.scope
  let kinds ← d.kinds
  return ⟨d, timespec, scope, kinds⟩

end Definition

end StockFlow
