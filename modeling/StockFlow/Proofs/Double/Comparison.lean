import StockFlow.Proofs.Double.Half
import StockFlow.Proofs.Equation.Table

/-!
# Doubles that are numbers are ordered

* `le_iff_not_lt`, `beq_iff_not_lt` — how the comparisons of two numbers hang together
* `comparedBy` — doubles with another way to tell which of them are equal up to rounding
* `ordered_comparedBy` — they are ordered whichever it is, if it is true of equal numbers
-/

namespace StockFlow.Doubles

variable {x y z : Float} {a b : Int}

theorem beq_iff (ha : level? x = some a) (hb : level? y = some b) : (x == y) = true ↔ a = b := by
  show (x.toModel.unpack.compare y.toModel.unpack == some Ordering.eq) = true ↔ a = b
  rw [compare_eq ha hb, beq_iff_eq, Option.some.injEq, Std.LawfulEqCmp.compare_eq_iff_eq]

theorem le_iff_not_lt (hx : x.isNaN = false) (hy : y.isNaN = false) : x ≤ y ↔ ¬y < x := by
  obtain ⟨a, ha⟩ := exists_level_of_isNaN hx
  obtain ⟨b, hb⟩ := exists_level_of_isNaN hy
  rw [le_iff ha hb, lt_iff hb ha, Int.not_lt]

theorem beq_iff_not_lt (hx : x.isNaN = false) (hy : y.isNaN = false) :
    (x == y) = true ↔ ¬x < y ∧ ¬y < x := by
  obtain ⟨a, ha⟩ := exists_level_of_isNaN hx
  obtain ⟨b, hb⟩ := exists_level_of_isNaN hy
  rw [beq_iff ha hb, lt_iff ha hb, lt_iff hb ha]
  omega

theorem lt_asymm (h : x < y) : ¬y < x := by
  obtain ⟨a, b, ha, hb, hab⟩ := exists_level_of_lt h
  rw [lt_iff hb ha]
  omega

theorem not_lt_trans (hy : y.isNaN = false) (hxy : ¬x < y) (hyz : ¬y < z) : ¬x < z := by
  intro h
  obtain ⟨a, c, ha, hc, hac⟩ := exists_level_of_lt h
  obtain ⟨b, hb⟩ := exists_level_of_isNaN hy
  rw [lt_iff ha hb] at hxy
  rw [lt_iff hb hc] at hyz
  omega

theorem lt_of_lt_of_le (h : x < y) (h' : y ≤ z) : x < z := by
  obtain ⟨a, b, ha, hb, hab⟩ := exists_level_of_lt h
  obtain ⟨b', c, hb', hc, hbc⟩ := exists_level_of_le h'
  obtain rfl := Option.some.inj (hb.symm.trans hb')
  rw [lt_iff ha hc]
  omega

/-- **Doubles with another way to tell** which of them are equal up to rounding. -/
@[reducible] def comparedBy (near : Float → Float → Bool) : Scalar Float :=
  { (inferInstance : Scalar Float) with near }

/-- Doubles are ordered, whichever way that is, if it is true of equal numbers. -/
theorem ordered_comparedBy {near : Float → Float → Bool}
    (hnear : ∀ x y : Float, (x == y) = true → near x y = true) :
    @Scalar.Ordered Float (comparedBy near) := by
  refine @Scalar.Ordered.mk Float (comparedBy near) ?_ ?_ ?_
  · intro x y hxy
    exact decide_eq_false (lt_asymm (of_decide_eq_true hxy))
  · intro x y z hy hxy hyz
    exact decide_eq_false (not_lt_trans hy (of_decide_eq_false hxy) (of_decide_eq_false hyz))
  · intro x y hx hy hxy hyx
    exact hnear x y ((beq_iff_not_lt hx hy).mpr ⟨of_decide_eq_false hxy, of_decide_eq_false hyx⟩)

end StockFlow.Doubles
