import StockFlow.Decimal.Basic

/-!
# Doubles as exact numbers

A finite double is `± significand · 2 ^ exponent` with whole numbers in both places. Everything that
writes, reads or rounds a double goes through this form, in exact arithmetic.

* `decode` — takes a double apart
* `ofRatio` — the double nearest to a quotient of natural numbers
-/

namespace StockFlow.Decimal

/-- What a double stands for. -/
inductive Binary64 where
  | nan
  | infinite (negative : Bool)
  /-- The number `significand · 2 ^ exponent` under its sign; a zero has a sign too. -/
  | finite (negative : Bool) (significand : Nat) (exponent : Int)
  deriving DecidableEq, Repr

namespace Binary64

/-- The exponent of the smallest steps: those of the doubles around zero. -/
def leastExponent : Int := -1074

/-- The bit of the sign, `2 ^ 63`. -/
def signBit : Nat := 0x8000000000000000

/-- How many fractions a significand may have, `2 ^ 52`. -/
def fractions : Nat := 0x10000000000000

/-- How many exponents fit into a double, `2 ^ 11`. The last is that of what is not finite. -/
def exponents : Nat := 0x800

/-- Takes the bits of a double apart. -/
def ofBits (bits : UInt64) : Binary64 :=
  let n := bits.toNat
  let negative := decide (signBit ≤ n)
  let biased : Nat := n / fractions % exponents
  let fraction : Nat := n % fractions
  if biased = exponents - 1 then
    if fraction = 0 then .infinite negative else .nan
  else if biased = 0 then .finite negative fraction leastExponent
  else .finite negative (fractions + fraction) (leastExponent + biased - 1)

/-- Takes a double apart. -/
def decode (x : Float) : Binary64 := ofBits x.toBits

/-- The power `2 ^ e` as a numerator, for `e ≥ 0`. -/
def scaleUp (e : Int) : Nat := Nat.pow 2 e.toNat

/-- The power `2 ^ -e` as a denominator, for `e < 0`. -/
def scaleDown (e : Int) : Nat := Nat.pow 2 (-e).toNat

/-- The exponent of the steps between doubles of the size of `num / den`. -/
def stepExponent (num den : Nat) : Int :=
  let guess : Int := (num.log2 : Int) - den.log2
  let binade := if num * scaleDown guess < den * scaleUp guess then guess - 1 else guess
  max (binade - 52) leastExponent

/-- The bits of the double nearest to `num / den`, a tie going to the even significand; from half a
step beyond the largest double on it is infinity. -/
def ratioBits (num den : Nat) : Nat :=
  if num = 0 then 0
  else
    let q := stepExponent num den
    let m := roundDiv (num * scaleDown q) (den * scaleUp q) .toEven
    min ((q - leastExponent).toNat * fractions + m) ((exponents - 1) * fractions)

/-- The double nearest to `num / den`. -/
def ofRatio (num den : Nat) : Float := Float.ofBits (UInt64.ofNat (ratioBits num den))

/-- The whole number nearest to the size of a number `m · 2 ^ q`, a half going up. -/
def nearestNat (m : Nat) (q : Int) : Nat := roundDiv (m * scaleUp q) (scaleDown q) .up

end Binary64

end StockFlow.Decimal
