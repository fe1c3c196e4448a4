import StockFlow.Equation.Builtin
import StockFlow.Tree.Expr

/-!
# The numbers of a model

What a simulation needs of its numbers. Models are computed in doubles; nothing else here depends on
that, so what a run does can also be said of exact numbers.

* `Scalar Float` — the arithmetic of doubles
-/

namespace StockFlow

/-- Numbers that a model can be computed in. -/
class Scalar (α : Type) where
  add : α → α → α
  sub : α → α → α
  mul : α → α → α
  div : α → α → α
  pow : α → α → α
  neg : α → α
  half : α → α
  /-- Whether one number is less than another. -/
  less : α → α → Bool
  /-- Whether two numbers are equal up to rounding. -/
  near : α → α → Bool
  /-- The answer where there is none. -/
  undefined : α
  isUndefined : α → Bool
  pi : α
  unary : UnaryFn → α → α
  binary : BinaryFn → α → α → α

namespace Scalar

variable {α : Type} [Scalar α]

/-- The value of an operator. -/
def operate : BinaryOp → α → α → α
  | .add => add
  | .sub => sub
  | .mul => mul
  | .div => div
  | .pow => pow

end Scalar

/-! ## Doubles -/

namespace Doubles

/-- The bits of a double as a number that grows with the double. -/
def rank (x : Float) : Int :=
  let bits := x.toBits.toNat
  if Decimal.Binary64.signBit ≤ bits then 2 * Decimal.Binary64.signBit - 1 - bits
  else bits + Decimal.Binary64.signBit

/-- The largest difference that counts as none: the distance from 1 to the next double. -/
def tolerance : Float := Float.ofBits 0x3CB0000000000000

/-- The largest number of doubles between two that count as equal. -/
def steps : Nat := 4

/-- Whether two doubles are equal up to rounding: by their difference or by their ranks, which are
compared modulo the number of all bit patterns. -/
def near (x y : Float) : Bool :=
  x == y || (x - y).abs ≤ tolerance ||
    ((rank x - rank y).bmod (2 * Decimal.Binary64.signBit)).natAbs ≤ steps

/-- The larger of two doubles; the other one if one is NaN. -/
def max (x y : Float) : Float :=
  if x.isNaN then y else if y.isNaN then x else if x < y then y else x

/-- The smaller of two doubles; the other one if one is NaN. -/
def min (x y : Float) : Float :=
  if x.isNaN then y else if y.isNaN then x else if y < x then y else x

/-- The functions of one double. -/
def unary : UnaryFn → Float → Float
  | .abs => Float.abs
  | .arctan => Float.atan
  | .cos => Float.cos
  | .exp => Float.exp
  | .ln => Float.log
  | .log10 => Float.log10
  | .sin => Float.sin
  | .sqrt => Float.sqrt
  | .tan => Float.tan

/-- The functions of two doubles. -/
def binary : BinaryFn → Float → Float → Float
  | .max => max
  | .min => min

end Doubles

instance : Scalar Float where
  add := Float.add
  sub := Float.sub
  mul := Float.mul
  div := Float.div
  pow := Float.pow
  neg := Float.neg
  half x := x / 2
  less x y := x < y
  near := Doubles.near
  undefined := 0 / 0
  isUndefined := Float.isNaN
  pi := Float.ofBits 0x400921FB54442D18
  unary := Doubles.unary
  binary := Doubles.binary

end StockFlow
