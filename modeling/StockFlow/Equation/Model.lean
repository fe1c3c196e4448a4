import StockFlow.Equation.Formula
import StockFlow.Model.Kind
import StockFlow.Model.Timespec

/-!
# Models ready to be computed

A model as a simulation needs it: its variables, the values that can be set from outside, its time
specification and its equations.
-/

namespace StockFlow

/-- A variable of a model. -/
structure Variable (α : Type) where
  name : String
  kind : VarKind
  /-- Its value, if that is a constant. -/
  default : Option α
  table : Option (Table α)
  deriving Repr

/-- Whether a variable stands in the report. Tables do not, even if they have a value. -/
def Variable.isRecorded {α : Type} (v : Variable α) : Bool := v.kind ≠ .table

/-- A model ready to be computed. -/
structure Model (α : Type) where
  name : String
  isInterface : Bool
  /-- Whether some variable is never given a value. -/
  isAbstract : Bool
  /-- The variables, in the order of their statements. -/
  vars : List (Variable α)
  /-- The values that variables have unless they are set from outside. -/
  defaults : Values α
  timespec : Option (Timespec α)
  equations : Equations α

namespace Model

variable {α : Type}

/-- Whether a name is that of a variable. -/
def declares (m : Model α) (name : String) : Bool := m.vars.any fun v => v.name = name

/-- The variables that stand in the report. -/
def recorded (m : Model α) : List String := (m.vars.filter Variable.isRecorded).map Variable.name

/-- Whether the value of a variable can be set from outside: it asks for its default at each
step. -/
def isOverridable (m : Model α) (name : String) : Bool :=
  m.equations.flows.any fun r => r.name = name && r.formula.readsDefault name

end Model

end StockFlow
