import StockFlow.Decimal.Binary64

/-!
# The shortest decimal that reads back

The decimals that round to a double fill an interval around it. The shortest of them lies on the
coarsest grid of powers of ten that has a point in the interval; of two such points the nearer is
taken. Only the two neighbours of the double on each grid have to be looked at: if any point of the
grid lies in the interval, so does one of them.

## Termination

The search goes from a grid coarser than the double to ever finer ones. A bound on the number of
grids makes it structural; twenty are enough, as each is ten times finer and a double has sixteen to
seventeen digits.
-/

namespace StockFlow.Decimal

/-- A positive double `m · 2 ^ q` and the interval of reals that round to it, all in units of
`2 ^ (q - 2)`. Its ends belong to it if the significand is even. -/
structure Interval where
  low : Nat
  value : Nat
  high : Nat
  exponent : Int
  closed : Bool
  deriving DecidableEq, Repr

namespace Interval

/-- The interval of a double. Below a power of two the doubles lie twice as close. -/
def around (m : Nat) (q : Int) : Interval where
  low := if m = Binary64.fractions ∧ Binary64.leastExponent < q then 4 * m - 1 else 4 * m - 2
  value := 4 * m
  high := 4 * m + 2
  exponent := q - 2
  closed := m % 2 = 0

/-- What one unit of the interval measures on the common scale with `10 ^ j`. -/
def unit (i : Interval) (j : Int) : Nat := Binary64.scaleUp i.exponent * Nat.pow 10 (-j).toNat

/-- What one step of the grid `10 ^ j` measures on the common scale. -/
def step (i : Interval) (j : Int) : Nat := Binary64.scaleDown i.exponent * Nat.pow 10 j.toNat

/-- Whether `c · 10 ^ j` rounds to the double. -/
def holds (i : Interval) (c : Nat) (j : Int) : Bool :=
  let point := c * i.step j
  let low := i.low * i.unit j
  let high := i.high * i.unit j
  if i.closed then low ≤ point && point ≤ high else low < point && point < high

/-- The point of the grid `10 ^ j` that rounds to the double and is nearest to it. -/
def nearest? (i : Interval) (tie : Tie) (j : Int) : Option Nat :=
  let value := i.value * i.unit j
  let below := value / i.step j
  let best := roundDiv value (i.step j) tie
  let other := if best = below then below + 1 else below
  if i.holds best j then some best
  else if i.holds other j then some other
  else none

/-- The first grid with a point in the interval, from `10 ^ j` on towards finer ones. -/
def search (i : Interval) (tie : Tie) : Nat → Int → Number
  | 0, j => ⟨roundDiv (i.value * i.unit j) (i.step j) tie, j⟩
  | grids + 1, j =>
    match i.nearest? tie j with
    | some c => ⟨c, j⟩
    | none => i.search tie grids (j - 1)

end Interval

/-- The shortest decimal that reads back as the double `m · 2 ^ q`, for `m` not zero. -/
def shortest (tie : Tie) (m : Nat) (q : Int) : Number :=
  let binade : Int := m.log2 + q
  let coarse := binade * 30103 / 100000 + 1
  (Interval.around m q).search tie 24 coarse

end StockFlow.Decimal
