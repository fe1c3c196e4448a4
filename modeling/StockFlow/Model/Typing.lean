import StockFlow.Model.Definition

/-!
# The kinds of a model's variables

The kind of a variable is the one written behind its name, which its value must not contradict, or
else the one that the form of its value suggests.

* `Definition.kinds` — the kind of each variable of a model
-/

namespace StockFlow

namespace Stmt

/-- How the value of a statement contradicts a kind, if it does. -/
def mismatch? (s : Stmt) (kind : VarKind) : Option KindMismatch :=
  match s.value with
  | none => if kind = .table then some .tableWithoutValue else none
  | some value =>
    match kind with
    | .stock => if value.isStockBody then none else some .noStockBody
    | .table => if value.isTable then none else some .noTable
    | .const =>
      if value.constant?.isNone then some .noConstant else none
    | .aux | .flow =>
      if value.isTable then some .isTable
      else if value.isStockBody then some .isStockBody
      else none

/-- The kind that the form of a value suggests. -/
def suggestedKind (s : Stmt) : Except VariableFault VarKind :=
  match s.value with
  | none => .ok .aux
  | some value =>
    if value.stripUnits.isTable then .ok .table
    else
      match value.stripUnits with
      | .composite none _ _ => .ok .stock
      | .composite (some type) _ _ =>
        if type = "stock" then .ok .stock else .error (.unknownComposite type)
      | _ => .ok .aux

/-- The kind of the variable that a statement introduces. -/
def kind (s : Stmt) : Except VariableFault VarKind :=
  match s.decl.kind with
  | none => s.suggestedKind
  | some (written, span) =>
    match VarKind.ofName? written with
    | none => .error (.unknownKind written span)
    | some kind =>
      match s.mismatch? kind with
      | some mismatch => .error (.kindMismatch kind mismatch)
      | none => .ok kind

end Stmt

/-- Variables and their kinds, in order. -/
abbrev Kinds := List (String × VarKind)

/-- The kind of a variable; where a name occurs twice, the later counts. -/
def Kinds.of? (kinds : Kinds) (name : String) : Option VarKind := kinds.reverse.lookup name

/-- **The kind of each variable of a model.** -/
def Definition.kinds (d : Definition) : Except ModelFault Kinds :=
  d.varStmts.mapM fun s =>
    match s.kind with
    | .ok kind => .ok (s.name, kind)
    | .error fault => .error (.atVariable d.name s.name fault)

end StockFlow
