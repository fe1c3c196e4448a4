import StockFlow.Decimal.Binary64

/-!
# Reading numerals

A numeral is written with ASCII digits, at most one point and at most one exponent: `2`, `.5`, `1.`,
`1.5e-3`. It stands for the double nearest to it.

* `Number.parse?` — the decimal that a numeral spells
* `ofNumeral` — the double nearest to it
-/

namespace StockFlow.Decimal

namespace Number

/-- The number that a row of ASCII digits spells. -/
def value (digits : List Char) : Nat := digits.foldl (fun n c => 10 * n + (c.toNat - 48)) 0

/-- Reads a row of digits, at least one, up to the end. -/
def digits? (cs : List Char) : Option Nat :=
  if cs.isEmpty || cs.any fun c => !c.isDigit then none else some (value cs)

/-- Reads what may follow the digits: nothing, or an exponent up to the end. -/
def exponent? : List Char → Option Int
  | [] => some 0
  | e :: rest =>
    if e = 'e' || e = 'E' then
      match rest with
      | '-' :: ds => (digits? ds).map fun n => -(n : Int)
      | '+' :: ds => (digits? ds).map fun n => (n : Int)
      | ds => (digits? ds).map fun n => (n : Int)
    else none

/-- The digits behind the point, if there is a point, and what follows them. -/
def fraction (cs : List Char) : List Char × List Char :=
  match cs with
  | '.' :: rest => (rest.takeWhile Char.isDigit, rest.dropWhile Char.isDigit)
  | _ => ([], cs)

/-- The decimal that a numeral spells; `none` if the text is not a numeral. -/
def parse? (cs : List Char) : Option Number :=
  let whole := cs.takeWhile Char.isDigit
  let (part, rest) := fraction (cs.dropWhile Char.isDigit)
  if whole.isEmpty && part.isEmpty then none
  else (exponent? rest).map fun e => ⟨value (whole ++ part), e - part.length⟩

/-- Numbers of more digits than this before the point are infinite as doubles, and numbers with more
zeros than this behind the point are zero. -/
def settled : Int := 400

/-- The double nearest to a decimal. Exponents so large or so small that the result is settled are
not computed with. -/
def toFloat (d : Number) : Float :=
  let size : Int := (Nat.toDigits 10 d.digits).length + d.exponent
  if d.digits = 0 || size < -settled then Binary64.ofRatio 0 1
  else if settled < size then Float.ofBits 0x7FF0000000000000
  else Binary64.ofRatio (d.digits * Nat.pow 10 d.exponent.toNat) (Nat.pow 10 (-d.exponent).toNat)

end Number

/-- The double that a numeral stands for; `none` if the text is not a numeral. -/
def read? (text : String) : Option Float := (Number.parse? text.toList).map Number.toFloat

/-- The double that a numeral stands for; zero for a text that is not a numeral. -/
def ofNumeral (text : String) : Float := (read? text).getD 0

end StockFlow.Decimal
