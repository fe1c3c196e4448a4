import StockFlow.Equation.Table

/-!
# Looking tables up

The points of a table that was made stand in the order of their arguments, so the search for an
argument ends at the first point that is not before it.

* `Scalar.Ordered` — numbers that are compared as those of a linear order
* `Table.exists_reached` — inside its range a table is looked up at the first point that is not
  before the argument, or on the line from the point before it
* `Table.lookup_of_less_first`, `Table.lookup_of_last_less` — outside it stays level
-/

namespace StockFlow

variable {α : Type} [Scalar α]

/-- **Numbers are compared as in a linear order,** those that are undefined apart, and two of which
neither is less are near. -/
structure Scalar.Ordered (α : Type) [Scalar α] : Prop where
  asymm : ∀ x y : α, less x y = true → less y x = false
  not_less_trans : ∀ x y z : α, isUndefined y = false → less x y = false → less y z = false →
    less x z = false
  near_of_not_less : ∀ x y : α, isUndefined x = false → isUndefined y = false →
    less x y = false → less y x = false → near x y = true

namespace Table

open Scalar (less near isUndefined)

variable {points : List (α × α)} {t : Table α} {arg : α} {p q first last : α × α} {i j : Nat}

/-! ## Points of a table -/

theorem ofPoints_eq_ok : ofPoints points = .ok t ↔ points ≠ [] ∧ decrease? points = none ∧
    t = ⟨(points.map Prod.fst).toArray, (points.map Prod.snd).toArray⟩ := by
  constructor
  · intro h
    unfold ofPoints at h
    split at h
    · cases h
    · next hempty =>
      split at h
      · cases h
      · next hdecrease =>
        cases h
        exact ⟨fun hnil => hempty (by rw [hnil]; rfl), hdecrease, rfl⟩
  · rintro ⟨hne, hdecrease, rfl⟩
    rw [ofPoints, if_neg (by simpa using hne), hdecrease]

/-- The points stand in the order of their arguments. -/
theorem pairwise_of_decrease? (hord : Scalar.Ordered α)
    (hdef : ∀ p ∈ points, isUndefined p.1 = false) (h : decrease? points = none) :
    points.Pairwise fun p q => less q.1 p.1 = false := by
  induction points with
  | nil => exact .nil
  | cons p rest ih =>
    cases rest with
    | nil => exact List.pairwise_singleton _ _
    | cons q rest =>
      rw [decrease?] at h
      split at h
      · cases h
      · next hless =>
        have hrest := ih (fun r hr => hdef r (List.mem_cons_of_mem _ hr)) h
        have hqp : less q.1 p.1 = false := Bool.eq_false_iff.mpr hless
        refine List.pairwise_cons.mpr ⟨fun r hr => ?_, hrest⟩
        rcases List.mem_cons.mp hr with rfl | hlater
        · exact hqp
        · exact hord.not_less_trans _ _ _ (hdef q (by simp))
            ((List.pairwise_cons.mp hrest).1 r hlater) hqp

theorem rel_of_le {β : Type} {R : β → β → Prop} {l : List β} {b c : β} (hrefl : ∀ b, R b b)
    (h : l.Pairwise R) (hij : i ≤ j) (hb : l[i]? = some b) (hc : l[j]? = some c) : R b c := by
  rcases Nat.lt_or_eq_of_le hij with hlt | rfl
  · obtain ⟨hi, rfl⟩ := List.getElem?_eq_some_iff.mp hb
    obtain ⟨hj, rfl⟩ := List.getElem?_eq_some_iff.mp hc
    exact List.pairwise_iff_getElem.mp h i j hi hj hlt
  · obtain rfl := Option.some.inj (hb.symm.trans hc)
    exact hrefl b

/-- **A table and its points:** there is one at least, and their arguments are numbers that do not
decrease. -/
structure Through (t : Table α) (points : List (α × α)) : Prop where
  eq : t = ⟨(points.map Prod.fst).toArray, (points.map Prod.snd).toArray⟩
  nonempty : points ≠ []
  defined : ∀ p ∈ points, isUndefined p.1 = false
  sorted : points.Pairwise fun p q => less q.1 p.1 = false

theorem through_of_ofPoints (hord : Scalar.Ordered α) (h : ofPoints points = .ok t)
    (hdef : ∀ p ∈ points, isUndefined p.1 = false) : t.Through points := by
  obtain ⟨hne, hdecrease, heq⟩ := ofPoints_eq_ok.mp h
  exact ⟨heq, hne, hdef, pairwise_of_decrease? hord hdef hdecrease⟩

namespace Through

theorem size_eq (h : t.Through points) : t.size = points.length := by
  rw [h.eq, size]
  simp

theorem x_eq (h : t.Through points) (hi : i < t.size) (hp : points[i]? = some p) :
    t.x i hi = p.1 := by
  obtain ⟨hlt, rfl⟩ := List.getElem?_eq_some_iff.mp hp
  obtain rfl := h.eq
  simp [x]

theorem y_eq (h : t.Through points) (hi : i < t.size) (hp : points[i]? = some p) :
    t.y i hi = p.2 := by
  obtain ⟨hlt, rfl⟩ := List.getElem?_eq_some_iff.mp hp
  obtain rfl := h.eq
  simp [y]

theorem exists_point (h : t.Through points) (hi : i < t.size) : ∃ p, points[i]? = some p :=
  ⟨_, List.getElem?_eq_getElem (h.size_eq ▸ hi)⟩

theorem defined_of_getElem? (h : t.Through points) (hp : points[i]? = some p) :
    isUndefined p.1 = false :=
  h.defined p (List.mem_of_getElem? hp)

/-- The argument of a later point is not less. -/
theorem not_less (h : t.Through points) (hord : Scalar.Ordered α) (hij : i ≤ j)
    (hp : points[i]? = some p) (hq : points[j]? = some q) : less q.1 p.1 = false := by
  refine rel_of_le (R := fun p q => less q.1 p.1 = false) (fun r => ?_) h.sorted hij hp hq
  cases hless : less r.1 r.1 with
  | false => rfl
  | true => exact hless.symm.trans (hord.asymm _ _ hless)

/-- What is behind a point is behind all points before it. -/
theorem less_of_le (h : t.Through points) (hord : Scalar.Ordered α) (hij : i ≤ j)
    (hp : points[i]? = some p) (hq : points[j]? = some q) (hless : less q.1 arg = true) :
    less p.1 arg = true := by
  cases hnot : less p.1 arg with
  | true => rfl
  | false =>
    have hafter := hord.not_less_trans _ _ _ (h.defined_of_getElem? hp)
      (h.not_less hord hij hp hq) hnot
    cases hless.symm.trans hafter

end Through

/-! ## Searching -/

/-- **The search ends at the first point that is not before the argument,** if all points before the
part that is searched are, and none behind it is. -/
theorem search_spec (t : Table α) (arg : α)
    (hlast : ∀ h : t.size - 1 < t.size, less (t.x (t.size - 1) h) arg = false)
    (hsorted : ∀ i j hi hj, i ≤ j → less (t.x j hj) arg = true → less (t.x i hi) arg = true)
    (low high : Nat) (hlow : low < t.size) (hhigh : high ≤ t.size)
    (hbefore : ∀ i hi, i < low → less (t.x i hi) arg = true)
    (hbehind : ∀ i hi, high ≤ i → less (t.x i hi) arg = false) :
    let r := t.search arg hlast low high hlow hhigh
    less (t.x r.1 r.2) arg = false ∧ ∀ i hi, i < r.1 → less (t.x i hi) arg = true := by
  fun_induction search t arg hlast low high hlow hhigh with
  | case1 low high hlow hhigh hlt middle hmiddle hless hnext ih =>
    exact ih (fun i hi hle => hsorted i middle hi hmiddle (by omega) hless) hbehind
  | case2 low high hlow hhigh hlt middle hmiddle hless ih =>
    refine ih hbefore fun i hi hle => Bool.eq_false_iff.mpr fun hbefore => ?_
    exact hless (hsorted middle i hmiddle hi hle hbefore)
  | case3 low high hlow hhigh hge => exact ⟨hbehind low hlow (by omega), hbefore⟩

/-! ## Looking up -/

/-- The first point that is not before an argument, and its place. -/
structure Reached (points : List (α × α)) (arg : α) (i : Nat) (p : α × α) : Prop where
  point : points[i]? = some p
  reached : less p.1 arg = false
  least : ∀ j q, j < i → points[j]? = some q → less q.1 arg = true

/-- The value at `arg` of the straight line through two points. -/
def secant (p q : α × α) (arg : α) : α :=
  Scalar.add
    (Scalar.mul (Scalar.sub arg p.1) (Scalar.div (Scalar.sub q.2 p.2) (Scalar.sub q.1 p.1))) p.2

theorem Through.exists_first (h : t.Through points) : ∃ first, points.head? = some first :=
  Option.ne_none_iff_exists'.mp fun hnone => h.nonempty (List.head?_eq_none_iff.mp hnone)

theorem Through.exists_last (h : t.Through points) : ∃ last, points.getLast? = some last :=
  Option.ne_none_iff_exists'.mp fun hnone => h.nonempty (List.getLast?_eq_none_iff.mp hnone)

theorem Through.size_pos (h : t.Through points) : 0 < t.size := by
  rw [h.size_eq]
  exact List.length_pos_iff.mpr h.nonempty

section

variable (h : t.Through points) (harg : isUndefined arg = false)
include h harg

/-- Before its first point a table stays level. -/
theorem lookup_of_less_first (hfirst : points.head? = some first)
    (hless : less arg first.1 = true) : t.lookup arg = first.2 := by
  rw [List.head?_eq_getElem?] at hfirst
  rw [lookup, dif_pos h.size_pos, if_neg (by simp [harg]), h.x_eq h.size_pos hfirst, if_pos hless,
    h.y_eq h.size_pos hfirst]

/-- Behind its last point a table stays level. -/
theorem lookup_of_last_less (hord : Scalar.Ordered α) (hlast : points.getLast? = some last)
    (hless : less last.1 arg = true) : t.lookup arg = last.2 := by
  obtain ⟨first, hfirst⟩ := h.exists_first
  rw [List.head?_eq_getElem?] at hfirst
  rw [List.getLast?_eq_getElem?, ← h.size_eq] at hlast
  have hbehind : less arg first.1 = false := by
    have hfirstless := h.less_of_le hord (Nat.zero_le _) hfirst hlast hless
    exact hord.asymm _ _ hfirstless
  rw [lookup, dif_pos h.size_pos, if_neg (by simp [harg]), h.x_eq h.size_pos hfirst,
    if_neg (by simp [hbehind]), dif_pos (by rwa [h.x_eq _ hlast]), h.y_eq _ hlast]

/-- **Inside its range a table is looked up at the first point that is not before the argument,** or
on the line that leads there from the point before. -/
theorem exists_reached (hord : Scalar.Ordered α) (hfirst : points.head? = some first)
    (hbegin : less arg first.1 = false) (hlast : points.getLast? = some last)
    (hend : less last.1 arg = false) : ∃ i p, Reached points arg i p ∧
      (i = 0 ∨ near p.1 arg = true → t.lookup arg = p.2) ∧
      ∀ j q, i = j + 1 → points[j]? = some q → near p.1 arg = false →
        t.lookup arg = secant q p arg := by
  rw [List.head?_eq_getElem?] at hfirst
  rw [List.getLast?_eq_getElem?, ← h.size_eq] at hlast
  rw [lookup, dif_pos h.size_pos, if_neg (by simp [harg]), h.x_eq h.size_pos hfirst,
    if_neg (by simp [hbegin]), dif_neg (by simp [h.x_eq _ hlast, hend])]
  have hsearch := t.search_spec arg (fun hi => by rw [h.x_eq hi hlast, hend]) ?_ 0 t.size
    h.size_pos (Nat.le_refl _) (fun _ _ hlt => absurd hlt (Nat.not_lt_zero _))
    fun _ hi hle => absurd hi (Nat.not_lt.mpr hle)
  · generalize t.search arg _ 0 t.size _ _ = r at hsearch ⊢
    obtain ⟨i, hi⟩ := r
    obtain ⟨hreached, hleast⟩ := hsearch
    obtain ⟨p, hp⟩ := h.exists_point hi
    rw [h.x_eq hi hp] at hreached
    refine ⟨i, p, ⟨hp, hreached, fun j q hj hq => ?_⟩, ?_, ?_⟩
    · have hj' : j < t.size := Nat.lt_trans hj hi
      rw [← h.x_eq hj' hq]
      exact hleast j hj' hj
    · intro hhit
      simp only
      rw [h.x_eq hi hp, h.y_eq hi hp, if_pos (by simpa using hhit)]
    · rintro j q rfl hq hmiss
      have hj : j < t.size := Nat.lt_of_succ_lt hi
      simp only
      rw [h.x_eq hi hp, if_neg (by simp [hmiss])]
      unfold between secant
      simp only [Nat.add_one_sub_one, h.x_eq hi hp, h.y_eq hi hp, h.x_eq hj hq, h.y_eq hj hq]
  · intro i j hi hj hij hless
    obtain ⟨p, hp⟩ := h.exists_point hi
    obtain ⟨q, hq⟩ := h.exists_point hj
    rw [h.x_eq hi hp]
    rw [h.x_eq hj hq] at hless
    exact h.less_of_le hord hij hp hq hless

/-- **At the argument of a point a table has the value of the first point with that argument.** -/
theorem lookup_of_hit (hord : Scalar.Ordered α) (hp : points[i]? = some p)
    (hle : less p.1 arg = false) (hge : less arg p.1 = false)
    (hnew : ∀ j q, j < i → points[j]? = some q → less q.1 arg = false → less arg q.1 = true) :
    t.lookup arg = p.2 := by
  obtain ⟨first, hfirst⟩ := h.exists_first
  obtain ⟨last, hlast⟩ := h.exists_last
  have hpdef := h.defined_of_getElem? hp
  have hafter : ∀ {j q}, j ≤ i → points[j]? = some q → less arg q.1 = false := fun hj hq =>
    hord.not_less_trans _ _ _ hpdef hge (h.not_less hord hj hq hp)
  have hend : less last.1 arg = false := by
    obtain ⟨hi, -⟩ := List.getElem?_eq_some_iff.mp hp
    have hlast' := hlast
    rw [List.getLast?_eq_getElem?] at hlast'
    exact hord.not_less_trans _ _ _ hpdef (h.not_less hord (by omega) hp hlast') hle
  obtain ⟨j, q, hreached, hhit, -⟩ := exists_reached h harg hord hfirst
    (hafter (Nat.zero_le i) (List.head?_eq_getElem? ▸ hfirst)) hlast hend
  -- No point before `p` has its argument, and the first one that is not before it is reached.
  obtain rfl : j = i := by
    rcases Nat.lt_trichotomy j i with hlt | rfl | hgt
    · have hless := hnew j q hlt hreached.point hreached.reached
      cases hless.symm.trans (hafter (Nat.le_of_lt hlt) hreached.point)
    · rfl
    · cases hle.symm.trans (hreached.least i p hgt hp)
  obtain rfl := Option.some.inj (hreached.point.symm.trans hp)
  exact hhit (Or.inr (hord.near_of_not_less _ _ hpdef harg hle hge))

end

end Table

end StockFlow
