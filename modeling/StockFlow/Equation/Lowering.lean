import StockFlow.Equation.Formula
import StockFlow.Model.Typing

/-!
# From expressions to formulas

An expression becomes a formula if every part of it is a value. Tables are no values unless they are
looked up; structured values and texts are none.

* `Expr.formula` — the formula of an expression
* `Expr.startFormula` — the formula of a starting value
* `Expr.tablePoints` — the points of a table
-/

namespace StockFlow

/-- What is known of the names of a model when its expressions become formulas. -/
structure Names where
  kinds : Kinds
  /-- The tables that are looked up where they are given, so that they have a value. -/
  valued : List String
  /-- The variables with a starting value. -/
  started : List String
  deriving Repr

namespace Names

/-- Whether a name is that of a table. -/
def isTable (names : Names) (name : String) : Bool := names.kinds.of? name = some .table

/-- Whether a name is that of a table without a value. -/
def isBareTable (names : Names) (name : String) : Bool :=
  names.isTable name && !(name ∈ names.valued)

end Names

namespace Expr

/-- The formula of a name. -/
def nameFormula (names : Names) (e : Expr) (name : String) :
    Except VariableFault (Formula Float) :=
  if name = "dt" then .ok .dt
  else if name = "time" then .ok (.var name)
  else if names.isBareTable name then .error (.misused .tableAsValue e)
  else .ok (.var name)

/-- The table that an expression names. -/
def tableName? (names : Names) (e : Expr) : Option String :=
  match e.stripUnits with
  | .var name _ => if names.isTable name then some name else none
  | _ => none

/-- Whether a function exists and takes that many arguments. -/
def checkArity (function : String) (given : Nat) : Except VariableFault Unit :=
  match Builtin.arity? function with
  | none => .error (.unknownFunction function)
  | some takes => if takes = given then .ok () else .error (.arity function takes given)

mutual

/-- The formula of an expression. -/
def formula (names : Names) (e : Expr) : Except VariableFault (Formula Float) :=
  match e with
  | .number numeral _ => .ok (.const (Decimal.ofNumeral numeral))
  | .var name _ => nameFormula names e name
  | .paren x _ | .units x _ _ => x.formula names
  | .negate x _ => .negate <$> x.formula names
  | .binary op l r _ => do
    let left ← l.formula names
    let right ← r.formula names
    return .binary op left right
  | .index t i _ =>
    match t.tableName? names with
    | some name => .lookup name <$> i.formula names
    | none => .error (.misused .indexOfNoTable e)
  | .call function args _ => do
    checkArity function args.length
    let args ← formulas names args
    match Builtin.ofName? function args with
    | some c => return .ofBuiltin c
    | none => throw (.misused .call e)
  | .literal _ _ => .error (.misused .literalAsValue e)
  | .composite _ _ _ => .error (.misused .compositeAsValue e)
  | .keyed _ _ _ | .pair _ _ _ => .error (.misused .stray e)
  | .table _ _ => .error (.misused .nestedTable e)

/-- The formulas of some expressions. -/
def formulas (names : Names) : List Expr → Except VariableFault (List (Formula Float))
  | [] => .ok []
  | e :: es => do
    let f ← e.formula names
    let fs ← formulas names es
    return f :: fs

end

/-- The formula of a starting value: a constant, or the starting value of a variable. -/
def startFormula (names : Names) (e : Expr) : Except VariableFault (Formula Float) :=
  match e.constant? with
  | some x => .ok (.const x)
  | none =>
    match e.stripUnits with
    | .var name _ =>
      if name = "dt" then .ok .dt
      else if name = "time" || name ∈ names.started then .ok (.var name)
      else .error (.noInitial name)
    | other => .error (.badInitial other)

/-- The coordinates of a point of a table. -/
def point (e : Expr) : Except VariableFault (Float × Float) :=
  match e with
  | .pair x y _ =>
    match x.constant?, y.constant? with
    | some x, some y => .ok (x, y)
    | _, _ => .error (.pointNotConstant e)
  | other => .error (.misused .tableElement other)

/-- The points of a table, whether it is looked up at once or not. -/
def tablePoints (e : Expr) : Except VariableFault (List (Float × Float)) :=
  match e with
  | .table points _ | .units (.table points _) _ _ => points.mapM point
  | .index t _ _ | .units (.index t _ _) _ _ => t.tablePoints
  | other => .error (.misused .tableDefinition other.stripUnits)

end Expr

end StockFlow
