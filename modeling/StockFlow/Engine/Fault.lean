/-!
# Faults of a run

What a simulation can refuse to do.
-/

namespace StockFlow

/-- Why a simulation refused. The first name is that of the simulation. -/
inductive RunFault where
  | unknownVariable (label name : String)
  /-- The variable is computed, so it cannot be set. -/
  | notOverridable (label name : String)
  /-- Nobody answers any more what value a variable has. -/
  | stopped (name : String)
  deriving DecidableEq, Repr

namespace RunFault

/-- The short name of a fault. -/
def code : RunFault → String
  | unknownVariable _ _ => "unknown_variable"
  | notOverridable _ _ => "not_overridable"
  | stopped _ => "coordinator_stopped"

/-- What is said about a fault. -/
def message : RunFault → String
  | unknownVariable label name => s!"{label}: unknown variable '{name}'"
  | notOverridable label name =>
    s!"{label}: '{name}' is computed by an equation and can't be overridden"
  | stopped name => s!"coordinator stopped before {name} could be served"

end RunFault

end StockFlow
