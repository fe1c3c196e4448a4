import StockFlow.Equation.Table
import Std.Data.TreeMap

/-!
# Formulas and rules

A formula is an expression made ready to be computed: names are resolved, parentheses and units are
gone. A rule gives a variable the value of a formula.

* `Formula.reads` — the variables whose values a formula needs
* `Equations` — the rules of a model
-/

namespace StockFlow

/-- An expression made ready to be computed. -/
inductive Formula (α : Type) where
  | const (value : α)
  /-- The present value of a variable. -/
  | var (name : String)
  /-- The value that a variable has unless it is set from outside. -/
  | default (name : String)
  /-- The step. -/
  | dt
  | negate (operand : Formula α)
  | binary (op : BinaryOp) (left right : Formula α)
  | lookup (table : String) (index : Formula α)
  | pi
  | apply1 (f : UnaryFn) (x : Formula α)
  | apply2 (f : BinaryFn) (x y : Formula α)
  deriving Repr, BEq

namespace Formula

variable {α : Type}

/-- The formula of a call. -/
def ofBuiltin : Builtin (Formula α) → Formula α
  | .pi => pi
  | .unary f x => apply1 f x
  | .binary f x y => apply2 f x y

/-- The variables whose present values a formula needs, each time it needs them. -/
def vars : Formula α → List String
  | const _ | default _ | dt | pi => []
  | var name => [name]
  | negate x | lookup _ x | apply1 _ x => x.vars
  | binary _ x y | apply2 _ x y => x.vars ++ y.vars

/-- The variables whose present values a formula needs, in the order of their names. -/
def reads (f : Formula α) : List String := f.vars.eraseDups.mergeSort fun a b => decide (a ≤ b)

/-- Whether a formula asks for the default of a variable. -/
def readsDefault (name : String) : Formula α → Bool
  | const _ | var _ | dt | pi => false
  | default n => n = name
  | negate x | lookup _ x | apply1 _ x => x.readsDefault name
  | binary _ x y | apply2 _ x y => x.readsDefault name || y.readsDefault name

end Formula

/-- Gives a variable the value of a formula. -/
structure Rule (α : Type) where
  name : String
  formula : Formula α
  deriving Repr, BEq

/-- Tables by name. -/
abbrev Tables (α : Type) := Std.TreeMap String (Table α)

/-- Values by name. -/
abbrev Values (α : Type) := Std.TreeMap String α

/-- The rules of a model: what is computed once at the start, at each step, and from one step to the
next, each list in the order in which it is worked off. -/
structure Equations (α : Type) where
  initials : List (Rule α)
  flows : List (Rule α)
  stocks : List (Rule α)
  tables : Tables α

end StockFlow
