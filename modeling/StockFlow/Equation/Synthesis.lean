import StockFlow.Equation.Lowering
import StockFlow.Equation.Model
import StockFlow.Graph.Order
import StockFlow.Model.Analysis

/-!
# The equations of a model

Every variable of a model contributes rules: what it starts with, what it is at each step, how it
changes from one step to the next. The rules of the first two kinds are then put in an order in
which each comes behind those whose variables it reads.

* `Analysis.compile` — a model with its variables, defaults and equations
-/

namespace StockFlow

/-! ## Stocks -/

/-- The entries of the body of a stock. -/
inductive StockKey where
  | initial
  | inflow
  | outflow
  | biflow
  deriving DecidableEq, Repr

/-- How an entry is written. -/
def StockKey.name : StockKey → String
  | initial => "initial"
  | inflow => "inflow"
  | outflow => "outflow"
  | biflow => "biflow"

/-- The entry written so. -/
def StockKey.ofName? (text : String) : Option StockKey :=
  [initial, inflow, outflow, biflow].find? fun k => k.name = text

/-- The entries of the body of a stock and their values. -/
abbrev StockBody := List (StockKey × Expr)

namespace StockBody

/-- Adds an element of a structured value to the entries. -/
def add (entries : StockBody) (element : Expr) : Except VariableFault StockBody :=
  match element with
  | .keyed name value _ =>
    match StockKey.ofName? name with
    | none => .error (.unknownKey name)
    | some key =>
      if (entries.lookup key).isSome then .error (.repeatedKey name)
      else .ok ((key, value) :: entries)
  | other => .error (.unexpectedElement other)

/-- The entries of the body of a stock. -/
def ofExpr (body : Expr) : Except VariableFault StockBody :=
  match body.stripUnits with
  | .composite type elements _ =>
    if type = none || type = some "stock" then elements.foldlM add []
    else .error (.misused .stockBody body.stripUnits)
  | other => .error (.misused .stockBody other)

/-- What a stock starts with: nothing, unless something is given. -/
def start (names : Names) (body : StockBody) : Except VariableFault (Formula Float) :=
  match body.lookup .initial with
  | some value => value.startFormula names
  | none => .ok (.const 0)

/-- The formula of an entry, if it is given. -/
def flow (names : Names) (body : StockBody) (key : StockKey) :
    Except VariableFault (Option (Formula Float)) :=
  match body.lookup key with
  | some value => some <$> value.formula names
  | none => .ok none

/-- The sum of two flows of which either may be missing. -/
def plus : Option (Formula Float) → Option (Formula Float) → Option (Formula Float)
  | some a, some b => some (.binary .add a b)
  | a, none => a
  | none, b => b

/-- The net flow: what flows in less what flows out, and nothing if there are no flows. -/
def net (gain loss : Option (Formula Float)) : Formula Float :=
  match gain, loss with
  | some a, some b => .binary .sub a b
  | none, some b => .negate b
  | some a, none => a
  | none, none => .const 0

/-- The net flow of a stock. -/
def netFlow (names : Names) (body : StockBody) : Except VariableFault (Formula Float) := do
  let both ← body.flow names .biflow
  let gain ← body.flow names .inflow
  let loss ← body.flow names .outflow
  return net (plus both gain) loss

/-- A stock after a step: what it was and its net flow over the step. -/
def nextFormula (name : String) (net : Formula Float) : Formula Float :=
  .binary .add (.var name) (.binary .mul net .dt)

end StockBody

/-! ## What a variable contributes -/

/-- What a variable contributes to the equations of its model. -/
structure Contribution where
  kind : VarKind
  start : Option (Formula Float) := none
  flow : Option (Formula Float) := none
  next : Option (Formula Float) := none
  table : Option (Table Float) := none
  /-- The value of a constant variable. -/
  constant : Option Float := none
  /-- Whether the value can be set from outside. -/
  isSettable : Bool := false
  deriving Repr

namespace Stmt

/-- The contribution of a stock. -/
def stockContribution (names : Names) (s : Stmt) (value : Expr) :
    Except VariableFault Contribution := do
  let body ← StockBody.ofExpr value
  let start ← body.start names
  let net ← body.netFlow names
  return { kind := .stock, start := some start, next := some (StockBody.nextFormula s.name net) }

/-- The index at which a table is looked up where it is given. -/
def tableIndex? (value : Expr) : Option Expr :=
  match value.stripUnits with
  | .index _ i _ => some i
  | _ => none

/-- The contribution of a table, which has a value only if it is looked up where it is given. -/
def tableContribution (names : Names) (model : String) (s : Stmt) (value : Expr) :
    Except ModelFault Contribution := do
  let points ← value.tablePoints.mapError (.atVariable model s.name)
  let table ← (Table.ofPoints points).mapError (.table s!"{model}.{s.name}")
  match tableIndex? value with
  | none => return { kind := .table, table := some table }
  | some i =>
    let index ← (i.formula names).mapError (.atVariable model s.name)
    return { kind := .table, table := some table, flow := some (.lookup s.name index) }

/-- The contribution of a constant. -/
def constContribution (value : Expr) : Except VariableFault Contribution :=
  match value.constant? with
  | some x =>
    .ok { kind := .const, start := some (.const x), flow := some (.const x), constant := some x }
  | none => .error (.misused .notConstant value)

/-- The contribution of a flow or auxiliary. If its value is a number, that is its default. -/
def flowContribution (names : Names) (kind : VarKind) (s : Stmt) (value : Expr) :
    Except VariableFault Contribution :=
  match value.constant? with
  | some x =>
    .ok { kind, start := some (.const x), flow := some (.default s.name), constant := some x,
          isSettable := true }
  | none => do return { kind, flow := some (← value.formula names) }

/-- What the variable of a statement contributes. A variable without a value has its default at all
times. -/
def contribution (names : Names) (model : String) (kind : VarKind) (s : Stmt) :
    Except ModelFault Contribution :=
  match s.value with
  | none => .ok { kind, start := some (.default s.name), flow := some (.default s.name) }
  | some value =>
    match kind with
    | .stock => (s.stockContribution names value).mapError (.atVariable model s.name)
    | .table => s.tableContribution names model value
    | .const => (constContribution value).mapError (.atVariable model s.name)
    | .aux | .flow => (s.flowContribution names kind value).mapError (.atVariable model s.name)

/-- Whether the variable of a statement has a starting value. -/
def isStarted (kind : VarKind) (s : Stmt) : Bool :=
  match s.value with
  | none => true
  | some value =>
    match kind with
    | .stock | .const => true
    | .table => false
    | .aux | .flow => value.constant?.isSome

/-- Whether the variable of a statement is a table with a value. -/
def isValued (kind : VarKind) (s : Stmt) : Bool :=
  match s.value with
  | none => false
  | some value => kind = .table && (tableIndex? value).isSome

end Stmt

/-! ## Ordering rules -/

/-- The rules, each behind those whose variables it reads; or a variable whose rule reads itself. -/
def orderRules (rules : List (Rule Float)) : Except String (List (Rule Float)) := do
  let find (name : String) := rules.find? fun r => r.name = name
  let reads (name : String) := ((find name).map fun r => r.formula.reads).getD []
  let names ← Graph.order reads (rules.map Rule.name)
  return names.filterMap find

/-! ## The equations of a model -/

/-- The rules that some variables contribute. -/
def contributedRules (part : Contribution → Option (Formula Float))
    (found : List (String × Contribution)) : List (Rule Float) :=
  found.filterMap fun (name, c) => (part c).map fun f => ⟨name, f⟩

namespace Analysis

/-- The statements of the variables with their kinds. -/
def typed (a : Analysis) : List (Stmt × VarKind) :=
  a.definition.varStmts.map fun s => (s, (a.kinds.of? s.name).getD .aux)

/-- What is known of the names of a model. -/
def names (a : Analysis) : Names where
  kinds := a.kinds
  valued := (a.typed.filter fun (s, kind) => s.isValued kind).map fun (s, _) => s.name
  started := (a.typed.filter fun (s, kind) => s.isStarted kind).map fun (s, _) => s.name

/-- What each variable of a model contributes. -/
def contributions (a : Analysis) : Except ModelFault (List (String × Contribution)) :=
  let names := a.names
  a.typed.mapM fun (s, kind) => do
    return (s.name, ← s.contribution names a.definition.name kind)

/-- Rules in order, or the fault of the model. -/
def ordered (a : Analysis) (list : RuleList) (rules : List (Rule Float)) :
    Except ModelFault (List (Rule Float)) :=
  (orderRules rules).mapError (.circularRules a.definition.name list)

/-- **Makes a model ready to be computed.** -/
def compile (a : Analysis) : Except ModelFault (Model Float) := do
  let found ← a.contributions
  let flows ← a.ordered .equations (contributedRules Contribution.flow found)
  let initials ← a.ordered .initialValues (contributedRules Contribution.start found)
  return {
    name := a.definition.name
    isInterface := a.definition.isInterface
    isAbstract := a.scope.isAbstract
    timespec := a.timespec
    vars := found.map fun (name, c) => ⟨name, c.kind, c.constant, c.table⟩
    defaults := .ofList (found.filterMap fun (name, c) =>
      if c.isSettable then c.constant.map fun x => (name, x) else none)
    equations := {
      initials
      flows
      stocks := contributedRules Contribution.next found
      tables := .ofList (found.filterMap fun (name, c) => c.table.map fun t => (name, t)) } }

end Analysis

end StockFlow
