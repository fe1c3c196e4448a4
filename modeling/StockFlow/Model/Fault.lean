import StockFlow.Model.Kind
import StockFlow.Model.Timespec

/-!
# Faults of models

What can be wrong with a model that can be read. A fault names the cause; `ModelFault.code` is its
short name and `ModelFault.message` what is said about it.
-/

namespace StockFlow

/-- How the value of a variable contradicts the kind it is declared with. -/
inductive KindMismatch where
  | tableWithoutValue
  | noStockBody
  | noTable
  | noConstant
  | isTable
  | isStockBody
  deriving DecidableEq, Repr

/-- What is said about a contradiction. -/
def KindMismatch.message : KindMismatch → String
  | tableWithoutValue => "tables must be defined by a table literal"
  | noStockBody => "not defined by a stock body"
  | noTable => "not defined by a table literal"
  | noConstant => "not defined by a numeric constant"
  | isTable => "defined by a table literal"
  | isStockBody => "defined by a stock body"

/-- An expression where it has no meaning. -/
inductive Misuse where
  | tableAsValue
  | indexOfNoTable
  | call
  | literalAsValue
  | compositeAsValue
  | stray
  | nestedTable
  | tableDefinition
  | tableElement
  | stockBody
  | notConstant
  deriving DecidableEq, Repr

/-- What is said about an expression without a meaning. -/
def Misuse.message : Misuse → String
  | tableAsValue => "table used as a value (index it instead)"
  | indexOfNoTable => "index of a non-table"
  | call => "call"
  | literalAsValue => "string used as a value"
  | compositeAsValue => "composite literal"
  | stray => "unexpected expression"
  | nestedTable => "nested table literal"
  | tableDefinition => "table definition"
  | tableElement => "table element"
  | stockBody => "stock body"
  | notConstant => "non-constant const"

/-- Why points do not make a table. -/
inductive TableFault (α : Type) where
  | noPoints
  /-- The argument `x` of a point is less than that of the point before it. -/
  | decreasing (x previous : α)
  deriving Repr

/-- What is said about a table. -/
def TableFault.message (name : String) : TableFault Float → String
  | noPoints => s!"table '{name}' has no points"
  | decreasing x previous =>
    s!"table '{name}' x values must not decrease, but {Decimal.plain x} follows "
      ++ Decimal.plain previous

/-- What is wrong with the rules of one variable. -/
inductive VariableFault where
  | unknownVariable (name : String) (span : Span)
  | unknownKind (kind : String) (span : Span)
  | kindMismatch (kind : VarKind) (mismatch : KindMismatch)
  | unknownComposite (type : String)
  | misused (misuse : Misuse) (expr : Expr)
  | unknownFunction (function : String)
  | arity (function : String) (takes given : Nat)
  /-- A starting value is taken from a variable that has none. -/
  | noInitial (name : String)
  | badInitial (value : Expr)
  | unexpectedElement (element : Expr)
  | unknownKey (key : String)
  | repeatedKey (key : String)
  | pointNotConstant (point : Expr)
  deriving Repr

namespace VariableFault

/-- The short name of a fault. -/
def code : VariableFault → String
  | unknownVariable _ _ => "unknown_variable"
  | unknownKind _ _ => "unknown_kind"
  | kindMismatch _ _ => "kind_mismatch"
  | unknownComposite _ | misused _ _ => "unsupported_expr"
  | unknownFunction _ => "unknown_builtin"
  | arity _ _ _ => "bad_builtin_args"
  | noInitial _ | badInitial _ => "bad_initial"
  | unexpectedElement _ | unknownKey _ | repeatedKey _ => "bad_stock"
  | pointNotConstant _ => "bad_table"

/-- What is said about a fault. -/
def message : VariableFault → String
  | unknownVariable name span => s!"unknown variable '{name}' referenced at {span.render}"
  | unknownKind kind span => s!"unknown kind '{kind}' at {span.render}"
  | kindMismatch kind mismatch => s!"declared {kind.name} but {mismatch.message}"
  | unknownComposite type => s!"unknown composite type '{type}'"
  | misused misuse expr => s!"{misuse.message} '{expr.text}' at {expr.span.render}"
  | unknownFunction function => s!"unknown function '{function}'"
  | arity function takes given => s!"{function} takes {takes} argument(s), not {given}"
  | noInitial name => s!"initial value references '{name}', which has no initial value"
  | badInitial value => s!"initial value must be a constant or a variable, not '{value.text}'"
  | unexpectedElement element => s!"unexpected stock element '{element.text}'"
  | unknownKey key =>
    s!"unknown stock key '{key}' (expected one of initial, inflow, outflow, biflow)"
  | repeatedKey key => s!"stock key '{key}' given twice"
  | pointNotConstant point => s!"table point {point.text} must have constant coordinates"

end VariableFault

/-- The rules that are put in order. -/
inductive RuleList where
  | equations
  | initialValues
  deriving DecidableEq, Repr

/-- How messages speak of one of the rules. -/
def RuleList.describe : RuleList → String
  | equations => "equation"
  | initialValues => "initial value"

/-- What is wrong with a model. -/
inductive ModelFault where
  | duplicateDeclaration (name : String)
  /-- A model starts from itself, by way of the models of `via`. -/
  | circularParents (model : String) (via : List String)
  | unknownParent (model parent : String)
  | repeatedStatement (model name : String)
  | timespec (fault : Timespec.Fault)
  | reservedName (model name : String)
  | redeclared (model name : String) (first second : Span)
  | atVariable (model name : String) (fault : VariableFault)
  | table (name : String) (fault : TableFault Float)
  | circularRules (model : String) (list : RuleList) (name : String)
  | noModel (name : String)
  | isInterface (name : String)
  | isAbstract (name : String)
  | noTimespec (model : String)
  deriving Repr

namespace ModelFault

/-- The short name of a fault. -/
def code : ModelFault → String
  | duplicateDeclaration _ => "duplicate_model"
  | circularParents _ _ | circularRules _ _ _ => "circular_dependency"
  | unknownParent _ _ | noModel _ => "unknown_model"
  | repeatedStatement _ _ | reservedName _ _ | redeclared _ _ _ _ => "duplicate_variable"
  | timespec _ | noTimespec _ => "bad_timespec"
  | atVariable _ _ fault => fault.code
  | table _ _ => "bad_table"
  | isInterface _ | isAbstract _ => "not_simulatable"

/-- What is said about a fault. -/
def message : ModelFault → String
  | duplicateDeclaration name => s!"'{name}' is declared more than once"
  | circularParents model via =>
    s!"'{model}' specializes itself (via " ++ " -> ".intercalate via ++ ")"
  | unknownParent model parent => s!"'{model}' specializes unknown model '{parent}'"
  | repeatedStatement model name => s!"{model}: '{name}' is declared more than once"
  | timespec fault => fault.message
  | reservedName model name => s!"{model}: '{name}' is a reserved name"
  | redeclared model name first second =>
    s!"{model}: '{name}' declared at {first.render} and again at {second.render}"
  | atVariable model name fault => s!"{model}.{name}: {fault.message}"
  | table name fault => fault.message name
  | circularRules model list name => s!"{model}: {list.describe} of '{name}' depends on itself"
  | noModel name => s!"no model named '{name}'"
  | isInterface name => s!"'{name}' is an interface and can't be simulated"
  | isAbstract name => s!"'{name}' has variables without equations and can't be simulated"
  | noTimespec model => s!"model '{model}' has no timespec"

end ModelFault

end StockFlow
