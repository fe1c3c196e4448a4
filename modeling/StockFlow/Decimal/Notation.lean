import StockFlow.Decimal.Shortest

/-!
# Writing doubles

Three ways of writing a double are in use:

* `plain` — in messages and printed equations: the shortest digits that read back, never with an
  exponent and without a fraction if there is none
* `artifact?` — in the JSON artifact: the shortest digits, always marked as a fraction or with an
  exponent, and nothing for what is not finite
* `fixed` — in reports: six decimals
-/

namespace StockFlow.Decimal

/-- The decimal digits of a natural number. -/
def digitsOf (n : Nat) : List Char := Nat.toDigits 10 n

/-- The digits with the point put `place` digits from the left; zeros fill the gap on either side,
and `tail` follows a number without a fraction. -/
def positional (digits : List Char) (place : Int) (tail : List Char) : List Char :=
  if (digits.length : Int) ≤ place then
    digits ++ List.replicate (place.toNat - digits.length) '0' ++ tail
  else if 0 < place then
    digits.take place.toNat ++ '.' :: digits.drop place.toNat
  else
    '0' :: '.' :: List.replicate (-place).toNat '0' ++ digits

/-- The digits as one digit, a fraction if there are more, and the exponent of the first digit. -/
def scientific (digits : List Char) (exponent : Int) : List Char :=
  let fraction := digits.drop 1
  let point := if fraction.isEmpty then [] else '.' :: fraction
  let sign := if exponent < 0 then '-' else '+'
  digits.take 1 ++ point ++ 'e' :: sign :: digitsOf exponent.natAbs

/-- The text under the sign of the number. -/
def signed (negative : Bool) (text : List Char) : String :=
  String.ofList (if negative then '-' :: text else text)

/-- A double in messages and printed equations. Of two shortest decimals equally near, the larger
is taken. -/
def plain (x : Float) : String :=
  match Binary64.decode x with
  | .nan => "NaN"
  | .infinite negative => signed negative "inf".toList
  | .finite negative m q =>
    if m = 0 then signed negative ['0']
    else
      let d := shortest .up m q
      let digits := digitsOf d.digits
      signed negative (positional digits (digits.length + d.exponent) [])

/-- A finite double in the JSON artifact: positional if its first digit stands between the fifth
place after the point and the sixteenth before it, else with an exponent. Of two shortest decimals
equally near, the even one is taken. -/
def artifact? (x : Float) : Option String :=
  match Binary64.decode x with
  | .nan | .infinite _ => none
  | .finite negative m q =>
    if m = 0 then some (signed negative "0.0".toList)
    else
      let d := shortest .toEven m q
      let digits := digitsOf d.digits
      let first := digits.length + d.exponent - 1
      some (signed negative
        (if -5 ≤ first ∧ first ≤ 15 then positional digits (first + 1) ['.', '0']
        else scientific digits first))

/-- The decimals of a report. -/
def places : Nat := 6

/-- How many units of the last decimal make one. -/
def unitsInOne : Nat := Nat.pow 10 places

/-- A whole number of units of the last decimal, with the point put in. -/
def withPoint (units : Nat) : List Char :=
  let fraction := digitsOf (units % unitsInOne)
  digitsOf (units / unitsInOne) ++ '.' :: List.replicate (places - fraction.length) '0' ++ fraction

/-- A double in a report: rounded from its exact value to six decimals, a half going to the even
neighbour. -/
def fixed (x : Float) : String :=
  match Binary64.decode x with
  | .nan => "NaN"
  | .infinite negative => signed negative "inf".toList
  | .finite negative m q =>
    let units := roundDiv (m * unitsInOne * Binary64.scaleUp q) (Binary64.scaleDown q) .toEven
    signed negative (withPoint units)

end StockFlow.Decimal
