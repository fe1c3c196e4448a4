import StockFlow.Model.Definition
import StockFlow.Model.Timespec
import StockFlow.Proofs.Equation.Evaluation

/-!
# What the statements of a model mean

The states that a model goes through, read off its statements alone: no rule, no order and no
simulation occurs here.

* `Expr.value?` — the value of an expression
* `Definition.StartsAt` — the value that a variable starts with
* `Definition.Begins`, `Definition.Follows` — the first state and the states after a state
* `Definition.Course` — the states of a model, one for each number of steps
-/

namespace StockFlow

/-! ## Values of expressions -/

/-- The value of a call. -/
def Builtin.value : Builtin Float → Float
  | .pi => Scalar.pi
  | .unary f x => Scalar.unary f x
  | .binary f x y => Scalar.binary f x y

namespace Expr

/-- The coordinates of a point. -/
def coordinates? : Expr → Option (Float × Float)
  | .pair x y _ => do return (← x.constant?, ← y.constant?)
  | _ => none

/-- The table that is given by its points, whether it is looked up or not. -/
def givenTable? : Expr → Option (Table Float)
  | .table points _ => do
    let points ← points.mapM coordinates?
    return ⟨(points.map Prod.fst).toArray, (points.map Prod.snd).toArray⟩
  | .units x _ _ | .index x _ _ => x.givenTable?
  | _ => none

/-- The table that stands before an index: it is named or given. -/
def tableOf? (w : Setting Float) (e : Expr) : Option (Table Float) :=
  match e.stripUnits with
  | .var name _ => w.table name
  | given => given.givenTable?

mutual

/-- **The value of an expression in a setting.** Parentheses and units change nothing; what is no
value has none. -/
def value? (w : Setting Float) : Expr → Option Float
  | .number numeral _ => some (Decimal.ofNumeral numeral)
  | .var name _ => if name = "dt" then some w.dt else w.value name
  | .paren x _ | .units x _ _ => x.value? w
  | .negate x _ => do return -(← x.value? w)
  | .binary op l r _ => do return Scalar.operate op (← l.value? w) (← r.value? w)
  | .index t i _ => do
    let x ← i.value? w
    return (← t.tableOf? w).lookup x
  | .call function args _ => do
    let xs ← values? w args
    return (← Builtin.ofName? function xs).value
  | .literal _ _ | .composite _ _ _ | .keyed _ _ _ | .pair _ _ _ | .table _ _ => none

/-- The values of some expressions, if each has one. -/
def values? (w : Setting Float) : List Expr → Option (List Float)
  | [] => some []
  | e :: es => do return (← e.value? w) :: (← values? w es)

end

/-! ## Bodies of stocks -/

/-- The value of an element under its key. -/
def underKey? (key : String) : Expr → Option Expr
  | .keyed k value _ => if k = key then some value else none
  | _ => none

/-- What the body of a stock says under a key. -/
def entry? (key : String) (body : Expr) : Option Expr :=
  match body.stripUnits with
  | .composite _ elements _ => elements.findSome? (underKey? key)
  | _ => none

/-- The net flow of a stock, over the flows that its body gives: what flows both ways and in, less
what flows out. -/
def net? (w : Setting Float) (body : Expr) : Option Float :=
  match body.entry? "biflow", body.entry? "inflow", body.entry? "outflow" with
  | none, none, none => some 0
  | some both, none, none => both.value? w
  | none, some gain, none => gain.value? w
  | none, none, some loss => do return -(← loss.value? w)
  | some both, some gain, none => do return (← both.value? w) + (← gain.value? w)
  | some both, none, some loss => do return (← both.value? w) - (← loss.value? w)
  | none, some gain, some loss => do return (← gain.value? w) - (← loss.value? w)
  | some both, some gain, some loss => do
    return ((← both.value? w) + (← gain.value? w)) - (← loss.value? w)

/-! ## Starting values -/

/-- What a starting value is taken from. -/
inductive Origin where
  | value (x : Float)
  /-- It is the step. -/
  | step
  /-- It is the starting value of a variable. -/
  | sameAs (name : String)

/-- What is taken from the entry of a stock for its starting value: a constant, or a variable. -/
def entryOrigin? (entry : Expr) : Option Origin :=
  match entry.constant?, entry.stripUnits with
  | some x, _ => some (.value x)
  | none, .var name _ => if name = "dt" then some .step else some (.sameAs name)
  | none, _ => none

/-- What the starting value of a variable is taken from, if it has one: a stock starts with what its
body says, and empty if that says nothing; a constant starts with its value. -/
def origin? (e : Expr) : Option Origin :=
  if e.isStockBody then
    match e.entry? "initial" with
    | none => some (.value 0)
    | some entry => entry.entryOrigin?
  else e.constant?.map .value

end Expr

/-! ## States -/

/-- A state gives names their values. -/
abbrev State := String → Option Float

namespace Definition

/-- The table of a variable. -/
def table? (d : Definition) (name : String) : Option (Table Float) :=
  ((d.varStmts.find? fun s => s.name = name).bind Stmt.value).bind Expr.givenTable?

/-- What expressions of a model stand for in a state. Nothing asks for a default. -/
def setting (d : Definition) (spec : Timespec Float) (σ : State) : Setting Float where
  value := σ
  default _ := none
  table := d.table?
  dt := spec.dt

/-- What a model says that a variable is equal to. -/
def Says (d : Definition) (name : String) (e : Expr) : Prop :=
  ∃ s ∈ d.varStmts, s.name = name ∧ s.value = some e

/-- Which variables are stocks, with their bodies. -/
def IsStock (d : Definition) (name : String) (body : Expr) : Prop :=
  d.Says name body ∧ body.isStockBody = true

/-- Which variables are given by an equation, and the right side of that. A table that is not looked
up where it is given stands here as well; its equation gives no value. -/
def IsEquation (d : Definition) (name : String) (side : Expr) : Prop :=
  d.Says name side ∧ side.isStockBody = false

/-- **The value that a variable starts with:** the one that it gives itself, the step, or the
starting value of the variable that it names. -/
inductive StartsAt (d : Definition) (spec : Timespec Float) : String → Float → Prop
  | time : StartsAt d spec "time" spec.start
  | value {name : String} {e : Expr} {x : Float} (h : d.Says name e)
      (he : e.origin? = some (.value x)) : StartsAt d spec name x
  | step {name : String} {e : Expr} (h : d.Says name e) (he : e.origin? = some .step) :
      StartsAt d spec name spec.dt
  | sameAs {name other : String} {e : Expr} {x : Float} (h : d.Says name e)
      (he : e.origin? = some (.sameAs other)) (hother : StartsAt d spec other x) :
      StartsAt d spec name x

/-- Each equation holds in a state, and there is nothing in it but the time and the variables. -/
structure Solves (d : Definition) (spec : Timespec Float) (σ : State) : Prop where
  equations : ∀ name side, d.IsEquation name side → σ name = side.value? (d.setting spec σ)
  nothingElse : ∀ name, name ≠ "time" → name ∉ d.varStmts.map Stmt.name → σ name = none

/-- **The first state:** the time is that of the start, stocks have their starting values and the
equations hold. -/
structure Begins (d : Definition) (spec : Timespec Float) (σ : State) : Prop where
  time : σ "time" = some spec.start
  stocks : ∀ name body, d.IsStock name body → ∃ x, d.StartsAt spec name x ∧ σ name = some x
  solves : d.Solves spec σ

/-- **The state after a state:** the time has moved on by a step, each stock by its net flow over
the step, and the equations hold. -/
structure Follows (d : Definition) (spec : Timespec Float) (σ σ' : State) : Prop where
  time : ∃ t, σ "time" = some t ∧ σ' "time" = some (t + spec.dt)
  stocks : ∀ name body, d.IsStock name body → ∃ x net, σ name = some x ∧
    body.net? (d.setting spec σ) = some net ∧ σ' name = some (x + net * spec.dt)
  solves : d.Solves spec σ'

/-- **The states of a model,** one for each number of steps. -/
structure Course (d : Definition) (spec : Timespec Float) (ρ : Nat → State) : Prop where
  first : d.Begins spec (ρ 0)
  next : ∀ k, d.Follows spec (ρ k) (ρ (k + 1))

end Definition

end StockFlow
