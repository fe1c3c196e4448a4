import StockFlow.Proofs.Double.Comparison

/-!
# What is looked up in a table of doubles

Nothing is asked of the way to tell whether two doubles are equal up to rounding, except that it is
true of equal ones.

* `Table.Covers` — the point that an argument is looked up at
* `Table.LooksUp` — the value that a table through some points has at an argument
* `Table.looksUp_lookupNear` — it is the value that is found
-/

namespace StockFlow.Table

variable {near : Float → Float → Bool} {points : List (Float × Float)} {t : Table Float}
  {arg : Float}

/-- The value of a table, with a way to tell which doubles are equal up to rounding. -/
def lookupNear (near : Float → Float → Bool) (t : Table Float) (arg : Float) : Float :=
  @lookup Float (Doubles.comparedBy near) t arg

/-- Simulations look up like this, with a way of their own to tell. -/
theorem lookupNear_near (t : Table Float) (arg : Float) :
    t.lookupNear Doubles.near arg = t.lookup arg := rfl

/-- The first point that is not before an argument, and its place. -/
structure Covers (points : List (Float × Float)) (arg : Float) (i : Nat) (p : Float × Float) :
    Prop where
  point : points[i]? = some p
  le : arg ≤ p.1
  least : ∀ (j : Nat) (q : Float × Float), j < i → points[j]? = some q → q.1 < arg

/-- **The value of a table through some points.** Between two points it lies on their line, which is
not upright: one of them is before the argument and the other is not. -/
structure LooksUp (near : Float → Float → Bool) (points : List (Float × Float))
    (arg value : Float) : Prop where
  before : ∀ first ∈ points.head?, arg < first.1 → value = first.2
  behind : ∀ last ∈ points.getLast?, last.1 < arg → value = last.2
  inside : ∀ first ∈ points.head?, ∀ last ∈ points.getLast?, first.1 ≤ arg → arg ≤ last.1 →
    ∃ (i : Nat) (p : Float × Float), Covers points arg i p ∧
      (i = 0 ∨ near p.1 arg = true → value = p.2) ∧
      ∀ (j : Nat) (q : Float × Float), i = j + 1 → points[j]? = some q →
        q.1 < arg ∧ arg ≤ p.1 ∧ q.1 < p.1 ∧
          (near p.1 arg = false → value = (arg - q.1) * ((p.2 - q.2) / (p.1 - q.1)) + q.2)
  hit : ∀ (i : Nat) (p : Float × Float), points[i]? = some p → (p.1 == arg) = true →
    (∀ (j : Nat) (q : Float × Float), j < i → points[j]? = some q → (q.1 == arg) = false) →
    value = p.2

/-! ## Tables with another way to tell -/

theorem decrease?_comparedBy (near : Float → Float → Bool) (points : List (Float × Float)) :
    @decrease? Float (Doubles.comparedBy near) points = decrease? points := by
  induction points with
  | nil => rfl
  | cons p rest ih =>
    cases rest with
    | nil => rfl
    | cons q rest =>
      exact congrArg (fun rest => if Scalar.less q.1 p.1 then some (q.1, p.1) else rest) ih

/-- A table goes through its points, whatever the way to tell. -/
theorem through_comparedBy (hnear : ∀ x y : Float, (x == y) = true → near x y = true)
    (ht : ofPoints points = .ok t) (hdef : ∀ p ∈ points, p.1.isNaN = false) :
    @Through Float (Doubles.comparedBy near) t points := by
  obtain ⟨hne, hdecrease, heq⟩ := ofPoints_eq_ok.mp ht
  rw [← decrease?_comparedBy near] at hdecrease
  let _ := Doubles.comparedBy near
  have hord := Doubles.ordered_comparedBy hnear
  exact ⟨heq, hne, hdef, pairwise_of_decrease? hord hdef hdecrease⟩

/-! ## Looking up -/

/-- **What is found is the value of the table through its points,** of which there is one. -/
theorem looksUp_lookupNear (hnear : ∀ x y : Float, (x == y) = true → near x y = true)
    (ht : ofPoints points = .ok t) (hdef : ∀ p ∈ points, p.1.isNaN = false)
    (harg : arg.isNaN = false) :
    points ≠ [] ∧ LooksUp near points arg (t.lookupNear near arg) := by
  let _ := Doubles.comparedBy near
  have hord := Doubles.ordered_comparedBy hnear
  have h := through_comparedBy hnear ht hdef
  have hnumber : ∀ {i : Nat} {p : Float × Float}, points[i]? = some p → p.1.isNaN = false :=
    fun hp => hdef _ (List.mem_of_getElem? hp)
  refine ⟨h.nonempty, ?_, ?_, ?_, ?_⟩
  · intro first hfirst hless
    exact lookup_of_less_first h harg hfirst (decide_eq_true hless)
  · intro last hlast hless
    exact lookup_of_last_less h harg hord hlast (decide_eq_true hless)
  · intro first hfirst last hlast hbegin hend
    have hfirst' := hdef first (List.mem_of_head? hfirst)
    have hlast' := hdef last (List.mem_of_getLast? hlast)
    obtain ⟨i, p, hreached, hhit, hline⟩ := exists_reached h harg hord hfirst
      (decide_eq_false ((Doubles.le_iff_not_lt hfirst' harg).mp hbegin)) hlast
      (decide_eq_false ((Doubles.le_iff_not_lt harg hlast').mp hend))
    have hle : arg ≤ p.1 := (Doubles.le_iff_not_lt harg (hnumber hreached.point)).mpr
      (of_decide_eq_false hreached.reached)
    have hleast : ∀ (j : Nat) (q : Float × Float), j < i → points[j]? = some q → q.1 < arg :=
      fun j q hj hq => of_decide_eq_true (hreached.least j q hj hq)
    refine ⟨i, p, ⟨hreached.point, hle, hleast⟩, hhit, ?_⟩
    rintro j q rfl hq
    have hlt := hleast j q (Nat.lt_succ_self j) hq
    exact ⟨hlt, hle, Doubles.lt_of_lt_of_le hlt hle, hline j q rfl hq⟩
  · intro i p hp heq hnew
    obtain ⟨hge, hle⟩ := (Doubles.beq_iff_not_lt (hnumber hp) harg).mp heq
    refine lookup_of_hit h harg hord hp (decide_eq_false hge) (decide_eq_false hle) ?_
    intro j q hj hq hqle
    refine Decidable.byContradiction fun hqge => ?_
    have hsame := (Doubles.beq_iff_not_lt (hnumber hq) harg).mpr
      ⟨of_decide_eq_false hqle, of_decide_eq_false (Bool.eq_false_iff.mpr hqge)⟩
    cases hsame.symm.trans (hnew j q hj hq)

/-- A table that leaps at 1. -/
def leaping : List (Float × Float) := [(0, 4), (1, 2), (1, 6), (3, 7)]

theorem looksUp_lookupNear_leaping :
    (∀ x y : Float, (x == y) = true → Doubles.near x y = true) ∧
      ∃ t, ofPoints leaping = .ok t ∧ LooksUp Doubles.near leaping 1 (t.lookup 1) ∧
        t.lookup 1 = 2 ∧ LooksUp Doubles.near leaping 2 (t.lookup 2) ∧ t.lookup 2 = 6.5 := by
  have hnear : ∀ x y : Float, (x == y) = true → Doubles.near x y = true := by
    intro x y h
    rw [Doubles.near, h, Bool.true_or, Bool.true_or]
  have hdef : ∀ p ∈ leaping, p.1.isNaN = false := by decide +kernel
  have ht : ofPoints leaping = .ok ⟨#[0, 1, 1, 3], #[4, 2, 6, 7]⟩ :=
    ofPoints_eq_ok.mpr ⟨by decide, by decide +kernel, rfl⟩
  have hargs : (1 : Float).isNaN = false ∧ (2 : Float).isNaN = false := by decide +kernel
  have hone := looksUp_lookupNear hnear ht hdef hargs.1
  have htwo := looksUp_lookupNear hnear ht hdef hargs.2
  rw [lookupNear_near] at hone htwo
  exact ⟨hnear, _, ht, hone.2, by decide +kernel, htwo.2, by decide +kernel⟩

end StockFlow.Table
