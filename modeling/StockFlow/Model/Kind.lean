/-!
# Kinds of variables

What a variable is in a stock and flow model.
-/

namespace StockFlow

/-- A stock accumulates, a flow or auxiliary is computed at each step, a table maps one quantity to
another, a constant never changes. -/
inductive VarKind where
  | stock
  | flow
  | aux
  | table
  | const
  deriving DecidableEq, Repr, Inhabited

namespace VarKind

/-- How a kind is written. -/
def name : VarKind → String
  | stock => "stock"
  | flow => "flow"
  | aux => "aux"
  | table => "table"
  | const => "const"

/-- All kinds. -/
def all : List VarKind := [stock, flow, aux, table, const]

/-- The kind written so. -/
def ofName? (text : String) : Option VarKind := all.find? fun k => k.name = text

/-- A kind is read back from its name. -/
theorem ofName?_name (k : VarKind) : ofName? k.name = some k := by
  cases k <;> decide

end VarKind

end StockFlow
