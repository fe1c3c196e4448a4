import StockFlow.Equation.Scalar
import StockFlow.Model.Fault

/-!
# Tables

A table is a function given by points. Between two points it runs straight, and beyond the first and
the last it stays level.

* `Table.ofPoints` — the table through some points
* `Table.lookup` — the value of a table

A look-up is made on any two rows of numbers, ordered or not and of equal length or not. What it
reads always lies in both rows: positions come with a proof of that.
-/

namespace StockFlow

/-- A row of arguments and a row of values. -/
structure Table (α : Type) where
  xs : Array α
  ys : Array α
  deriving Repr, BEq

namespace Table

variable {α : Type}

/-- How many points a table has. -/
def size (t : Table α) : Nat := min t.xs.size t.ys.size

/-- The argument of a point. -/
def x (t : Table α) (i : Nat) (h : i < t.size) : α :=
  have : i < t.xs.size := Nat.lt_of_lt_of_le h (Nat.min_le_left _ _)
  t.xs[i]

/-- The value of a point. -/
def y (t : Table α) (i : Nat) (h : i < t.size) : α :=
  have : i < t.ys.size := Nat.lt_of_lt_of_le h (Nat.min_le_right _ _)
  t.ys[i]

/-- The points of a table. -/
def points (t : Table α) : List (α × α) := t.xs.toList.zip t.ys.toList

variable [Scalar α]

/-! ## Looking up -/

/-- The position where the search between `low` and `high` ends: half by half, it goes on behind the
middle if the argument there is less than `arg`, and else before it. The last argument is not less,
so the search ends at a point. -/
def search (t : Table α) (arg : α)
    (hlast : ∀ h : t.size - 1 < t.size, Scalar.less (t.x (t.size - 1) h) arg = false)
    (low high : Nat) (hlow : low < t.size) (hhigh : high ≤ t.size) : { i : Nat // i < t.size } :=
  if _h : low < high then
    let middle := low + (high - low) / 2
    have hmiddle : middle < t.size := by omega
    if hless : Scalar.less (t.x middle hmiddle) arg = true then
      have : middle + 1 < t.size := by
        refine Decidable.byContradiction fun hge => ?_
        have heq : middle = t.size - 1 := by omega
        have := hlast (by omega)
        simp only [heq] at hless
        rw [hless] at this
        cases this
      t.search arg hlast (middle + 1) high this hhigh
    else t.search arg hlast low middle hlow (by omega)
  else ⟨low, hlow⟩
termination_by high - low

/-- The value at `arg` on the line through the points `i - 1` and `i`. -/
def between (t : Table α) (arg : α) (i : Nat) (hi : i < t.size) : α :=
  have hprev : i - 1 < t.size := Nat.lt_of_le_of_lt (Nat.sub_le i 1) hi
  let x₀ := t.x (i - 1) hprev
  let y₀ := t.y (i - 1) hprev
  let slope := Scalar.div (Scalar.sub (t.y i hi) y₀) (Scalar.sub (t.x i hi) x₀)
  Scalar.add (Scalar.mul (Scalar.sub arg x₀) slope) y₀

/-- The value of a table at `arg`. There is none for an empty table or an undefined argument. -/
def lookup (t : Table α) (arg : α) : α :=
  if h : 0 < t.size then
    if Scalar.isUndefined arg then Scalar.undefined
    else if Scalar.less arg (t.x 0 h) then t.y 0 h
    else if hlast : Scalar.less (t.x (t.size - 1) (Nat.sub_lt h Nat.one_pos)) arg = true then
      t.y (t.size - 1) (Nat.sub_lt h Nat.one_pos)
    else
      let ⟨i, hi⟩ := t.search arg (fun _ => Bool.eq_false_iff.2 hlast) 0 t.size h (Nat.le_refl _)
      if i = 0 || Scalar.near (t.x i hi) arg then t.y i hi else t.between arg i hi
  else Scalar.undefined

/-! ## Making tables -/

/-- The first point whose argument is less than that of the point before it, and both arguments. -/
def decrease? : List (α × α) → Option (α × α)
  | p :: q :: rest =>
    if Scalar.less q.1 p.1 then some (q.1, p.1) else decrease? (q :: rest)
  | _ => none

/-- The table through some points, of which there has to be one and whose arguments must not
decrease. -/
def ofPoints (points : List (α × α)) : Except (TableFault α) (Table α) :=
  if points.isEmpty then .error .noPoints
  else
    match decrease? points with
    | some (x, previous) => .error (.decreasing x previous)
    | none => .ok ⟨(points.map Prod.fst).toArray, (points.map Prod.snd).toArray⟩

end Table

end StockFlow
