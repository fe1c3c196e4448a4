import Mathlib.Algebra.Group.Nat.Defs
import Mathlib.Data.Nat.Log
import StockFlow.Equation.Table

/-!
# What a look-up reads

A table may be any two rows of numbers, and numbers may compare in any way. That a look-up stays
inside both rows rests on two comparisons: the last argument was found not to be less before the
search begins, and a search goes on behind a point only if its argument is less.

* `Table.lookup?` — looking up where every place is checked before it is read, and the rounds of the
  search are counted
* `Table.search?_eq` — a search whose last argument is not less ends at a point
* `Table.lookup_inside` — no check fails, and the rounds are enough

## Rounds

Each round leaves less than half of the places, so there are at most `Table.rounds` of them.
-/

namespace StockFlow.Table

variable {α : Type} {t : Table α} {arg : α} {low high i k : Nat}

/-! ## Places -/

/-- The argument at a place, if it lies in both rows. -/
def x? (t : Table α) (i : Nat) : Option α := if h : i < t.size then some (t.x i h) else none

/-- The value at a place, if it lies in both rows. -/
def y? (t : Table α) (i : Nat) : Option α := if h : i < t.size then some (t.y i h) else none

/-- The place before a place, if there is one. -/
def before? (i : Nat) : Option Nat := if 0 < i then some (i - 1) else none

@[simp] theorem x?_of_lt (h : i < t.size) : t.x? i = some (t.x i h) := dif_pos h

@[simp] theorem y?_of_lt (h : i < t.size) : t.y? i = some (t.y i h) := dif_pos h

@[simp] theorem before?_of_pos (h : 0 < i) : before? i = some (i - 1) := if_pos h

variable [Scalar α]

/-! ## Looking up with checks -/

/-- The search between `low` and `high`. There is no answer if it reads outside of the rows or takes
more than `rounds` rounds. -/
def search? (t : Table α) (arg : α) (rounds low high : Nat) : Option Nat :=
  if low < high then
    match rounds with
    | 0 => none
    | rounds + 1 => do
      let middle := low + (high - low) / 2
      if Scalar.less (← t.x? middle) arg then t.search? arg rounds (middle + 1) high
      else t.search? arg rounds low middle
  else some low

/-- The value on the line from the point before a place to the one at it. There is no answer if one
of them lies outside of the rows or no point is before. -/
def between? (t : Table α) (arg : α) (i : Nat) : Option α := do
  let j ← before? i
  let x₀ ← t.x? j
  let y₀ ← t.y? j
  let slope := Scalar.div (Scalar.sub (← t.y? i) y₀) (Scalar.sub (← t.x? i) x₀)
  return Scalar.add (Scalar.mul (Scalar.sub arg x₀) slope) y₀

/-- The value at `arg` where the search has settled on a place. There is no answer if something is
read outside of the rows. -/
def settle? (t : Table α) (arg : α) (i : Nat) : Option α := do
  if i = 0 then t.y? i
  else if Scalar.near (← t.x? i) arg then t.y? i
  else t.between? arg i

/-- How often a row can be halved until nothing is left. -/
def rounds (t : Table α) : Nat := Nat.log 2 t.size + 1

/-- **Looking up where every place is checked before it is read.** There is no answer if a place
lies outside of one of the rows or if the search goes on for too long. -/
def lookup? (t : Table α) (arg : α) : Option α := do
  if t.size = 0 then return Scalar.undefined
  else if Scalar.isUndefined arg then return Scalar.undefined
  else if Scalar.less arg (← t.x? 0) then t.y? 0
  else
    let last ← before? t.size
    if Scalar.less (← t.x? last) arg then t.y? last
    else t.settle? arg (← t.search? arg t.rounds 0 t.size)

/-! ## No check fails -/

/-- **A search whose last argument is not less ends at a point.** It reads inside the rows only, and
half of the places are left after each round. -/
theorem search?_eq (hlast : ∀ h : t.size - 1 < t.size, Scalar.less (t.x (t.size - 1) h) arg = false)
    (hlow : low < t.size) (hhigh : high ≤ t.size) (hk : high - low < 2 ^ k) :
    t.search? arg k low high = some (t.search arg hlast low high hlow hhigh).1 := by
  induction k generalizing low high with
  | zero =>
    have hge : ¬low < high := by omega
    rw [search?, search, if_neg hge, dif_neg hge]
  | succ k ih =>
    rw [search?, search]
    by_cases hlt : low < high
    · have hmiddle : low + (high - low) / 2 < t.size := by omega
      -- Less than half of the places are left, so one round less is enough for them.
      simp only [if_pos hlt, dif_pos hlt, x?_of_lt hmiddle, Option.bind_eq_bind, Option.bind_some]
      split
      · exact ih _ _ (by omega)
      · exact ih _ _ (by omega)
    · rw [if_neg hlt, dif_neg hlt]

omit [Scalar α] in
theorem size_lt_rounds (t : Table α) : t.size - 0 < 2 ^ t.rounds :=
  Nat.lt_pow_succ_log_self Nat.one_lt_two t.size

theorem between?_eq (hi : i < t.size) (hpos : 0 < i) :
    t.between? arg i = some (t.between arg i hi) := by
  have hprev : i - 1 < t.size := by omega
  simp only [between?, before?_of_pos hpos, x?_of_lt hi, x?_of_lt hprev, y?_of_lt hi,
    y?_of_lt hprev, Option.bind_eq_bind, Option.bind_some, Option.pure_def]
  rfl

theorem settle?_eq (hi : i < t.size) : t.settle? arg i =
    some (if i = 0 || Scalar.near (t.x i hi) arg then t.y i hi else t.between arg i hi) := by
  unfold settle?
  by_cases hpos : 0 < i
  · have hne : i ≠ 0 := Nat.ne_of_gt hpos
    simp only [hne, ↓reduceIte, decide_false, Bool.false_or, x?_of_lt hi, y?_of_lt hi,
      between?_eq hi hpos, Option.bind_eq_bind, Option.bind_some]
    split <;> rfl
  · obtain rfl := Nat.eq_zero_of_not_pos hpos
    rw [if_pos rfl, y?_of_lt hi]
    rfl

/-- **Looking up with checks gives what looking up without them gives.** -/
theorem lookup?_eq (t : Table α) (arg : α) : t.lookup? arg = some (t.lookup arg) := by
  unfold lookup? lookup
  by_cases hpos : 0 < t.size
  · have hend : t.size - 1 < t.size := by omega
    simp only [Nat.ne_of_gt hpos, ↓reduceIte, dif_pos hpos, x?_of_lt hpos, y?_of_lt hpos,
      before?_of_pos hpos, x?_of_lt hend, y?_of_lt hend, Option.bind_eq_bind, Option.bind_some]
    split
    · rfl
    split
    · rfl
    split
    · rfl
    · next hlast =>
      have hlast' := Bool.eq_false_iff.mpr hlast
      rw [search?_eq (fun _ => hlast') hpos (Nat.le_refl _) t.size_lt_rounds]
      exact settle?_eq _
  · rw [if_pos (Nat.eq_zero_of_not_pos hpos), dif_neg hpos]
    rfl

/-- Where the last argument is not less, the search settles on a place in both rows. -/
theorem exists_search? {last : α} (hx : t.x? (t.size - 1) = some last)
    (hless : Scalar.less last arg = false) :
    ∃ i, t.search? arg t.rounds 0 t.size = some i ∧ i < t.size := by
  by_cases hend : t.size - 1 < t.size
  · have hpos : 0 < t.size := by omega
    rw [x?_of_lt hend, Option.some.injEq] at hx
    subst hx
    rw [search?_eq (fun _ => hless) hpos (Nat.le_refl _) t.size_lt_rounds]
    exact ⟨_, rfl, (t.search arg _ 0 t.size _ _).2⟩
  · rw [x?, dif_neg hend] at hx
    cases hx

/-- **A look-up stays inside both rows, and it ends.** Whatever the rows hold, however long either
of them is and whatever is looked up, no check fails, so that looking up with checks gives what
looking up without them gives. A search is made only if the last argument is not less, and then it
settles on a place that lies in both rows. -/
theorem lookup_inside (t : Table α) (arg : α) : t.lookup? arg = some (t.lookup arg) ∧
    ∀ last, t.x? (t.size - 1) = some last → Scalar.less last arg = false →
      ∃ i, t.search? arg t.rounds 0 t.size = some i ∧ i < t.xs.size ∧ i < t.ys.size := by
  refine ⟨t.lookup?_eq arg, fun last hx hless => ?_⟩
  obtain ⟨i, hsearch, hi⟩ := exists_search? hx hless
  exact ⟨i, hsearch, Nat.lt_min.mp hi⟩

/-- Rows of unequal length, the shorter of which ends in front of an argument that is no number, and
arguments that fall. -/
def ragged : Table Float := ⟨#[3, 0 / 0, 1, 0 / 0, 1 / 0], #[5, 6, 0 / 0, 7]⟩

theorem lookup_inside_ragged : ragged.lookup? 4 = some (ragged.lookup 4) ∧
    ∃ last, ragged.x? (ragged.size - 1) = some last ∧ Scalar.less last 4 = false ∧
      ∃ i, ragged.search? 4 ragged.rounds 0 ragged.size = some i ∧ i < ragged.xs.size ∧
        i < ragged.ys.size := by
  obtain ⟨hlookup, hsearch⟩ := lookup_inside ragged 4
  have hlast : Scalar.less (0 / 0 : Float) 4 = false := by decide +kernel
  exact ⟨hlookup, _, rfl, hlast, hsearch _ rfl hlast⟩

end StockFlow.Table
