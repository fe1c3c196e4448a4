import Mathlib.Data.Finset.Max
import Mathlib.Order.Interval.Set.UnorderedInterval
import Mathlib.Order.Monotone.Defs
import StockFlow.Proofs.Engine.Exact
import StockFlow.Proofs.Equation.Table

/-!
# The course of a table in exact numbers

Where nothing is rounded, a table runs from point to point without going beyond them. Rising and
falling values are treated as one, by the relation between an earlier and a later value.

* `ExactValues` — values are rational numbers and computed exactly
* `Table.Lands` — the value at an argument, by where the argument stands
* `Table.Tendency`, `Table.Lands.related` — a table follows the direction of its points
* `Table.course_of_lookup` — a table is bounded by its points and rises or falls with them
-/

namespace StockFlow

/-- Values are computed and compared exactly, and are near only if they are equal. -/
structure ExactValues [Scalar ℚ] : Prop where
  add : ∀ x y : ℚ, Scalar.add x y = x + y
  sub : ∀ x y : ℚ, Scalar.sub x y = x - y
  mul : ∀ x y : ℚ, Scalar.mul x y = x * y
  div : ∀ x y : ℚ, Scalar.div x y = x / y
  less : ∀ x y : ℚ, Scalar.less x y = decide (x < y)
  near : ∀ x y : ℚ, Scalar.near x y = decide (x = y)
  defined : ∀ x : ℚ, Scalar.isUndefined x = false

theorem ExactValues.ordered [Scalar ℚ] (hexact : ExactValues) : Scalar.Ordered ℚ where
  asymm x y h := by
    rw [hexact.less, decide_eq_true_iff] at h
    rw [hexact.less, decide_eq_false_iff_not, not_lt]
    exact h.le
  not_less_trans x y z _ hxy hyz := by
    rw [hexact.less, decide_eq_false_iff_not, not_lt] at hxy hyz ⊢
    exact hyz.trans hxy
  near_of_not_less x y _ _ hxy hyx := by
    rw [hexact.less, decide_eq_false_iff_not, not_lt] at hxy hyx
    rw [hexact.near, decide_eq_true_iff]
    exact le_antisymm hyx hxy

namespace Table

variable {points : List (ℚ × ℚ)} {p q first last : ℚ × ℚ} {i j : ℕ} {a b v w : ℚ}

/-! ## Lines -/

/-- The value at `a` of the line through two points. -/
def chord (q p : ℚ × ℚ) (a : ℚ) : ℚ := (a - q.1) * ((p.2 - q.2) / (p.1 - q.1)) + q.2

theorem chord_left (q p : ℚ × ℚ) : chord q p q.1 = q.2 := by
  rw [chord, sub_self, zero_mul, zero_add]

theorem chord_right (h : q.1 < p.1) : chord q p p.1 = p.2 := by
  rw [chord, mul_div_cancel₀ _ (sub_pos.mpr h).ne', sub_add_cancel]

theorem chord_le_chord (h : q.1 < p.1) (hrise : q.2 ≤ p.2) (hab : a ≤ b) :
    chord q p a ≤ chord q p b := by
  have hslope : 0 ≤ (p.2 - q.2) / (p.1 - q.1) :=
    div_nonneg (sub_nonneg.mpr hrise) (sub_nonneg.mpr h.le)
  unfold chord
  gcongr

theorem chord_ge_chord (h : q.1 < p.1) (hfall : p.2 ≤ q.2) (hab : a ≤ b) :
    chord q p b ≤ chord q p a := by
  have hslope : (p.2 - q.2) / (p.1 - q.1) ≤ 0 :=
    div_nonpos_of_nonpos_of_nonneg (sub_nonpos.mpr hfall) (sub_nonneg.mpr h.le)
  unfold chord
  have := mul_le_mul_of_nonpos_right (sub_le_sub_right hab q.1) hslope
  linarith

/-! ## Directions -/

/-- A direction in which the values of a table can go. -/
structure Tendency (R : ℚ → ℚ → Prop) : Prop where
  refl : ∀ v, R v v
  trans : ∀ {u v w}, R u v → R v w → R u w
  chord : ∀ {q p : ℚ × ℚ} {a b : ℚ}, q.1 < p.1 → R q.2 p.2 → a ≤ b → R (chord q p a) (chord q p b)

theorem tendency_le : Tendency (· ≤ ·) := ⟨le_refl, le_trans, chord_le_chord⟩

theorem tendency_ge : Tendency (· ≥ ·) := ⟨le_refl, ge_trans, chord_ge_chord⟩

namespace Tendency

variable {R : ℚ → ℚ → Prop} (hR : Tendency R)
include hR

theorem of_le (hall : points.Pairwise fun p q => R p.2 q.2) (hij : i ≤ j)
    (hp : points[i]? = some p) (hq : points[j]? = some q) : R p.2 q.2 :=
  rel_of_le (R := fun p q => R p.2 q.2) (fun p => hR.refl p.2) hall hij hp hq

/-- A line goes where its points do, from the one on its left, -/
theorem left_chord (h : R q.2 p.2) (hlt : q.1 < a) (hle : a ≤ p.1) : R q.2 (Table.chord q p a) := by
  have hchord := hR.chord (hlt.trans_le hle) h hlt.le
  rwa [chord_left] at hchord

/-- and to the one on its right. -/
theorem chord_right (h : R q.2 p.2) (hlt : q.1 < a) (hle : a ≤ p.1) :
    R (Table.chord q p a) p.2 := by
  have hsegment := hlt.trans_le hle
  have hchord := hR.chord hsegment h hle
  rwa [Table.chord_right hsegment] at hchord

end Tendency

theorem chord_mem_uIcc (hlt : q.1 < a) (hle : a ≤ p.1) : chord q p a ∈ Set.uIcc q.2 p.2 := by
  rcases le_total q.2 p.2 with hrise | hfall
  · exact Set.mem_uIcc_of_le (tendency_le.left_chord hrise hlt hle)
      (tendency_le.chord_right hrise hlt hle)
  · exact Set.mem_uIcc_of_ge (tendency_ge.chord_right hfall hlt hle)
      (tendency_ge.left_chord hfall hlt hle)

/-! ## Where an argument stands -/

/-- **The value at an argument,** which is not behind the first point, or stands between two points
that follow each other, or behind the last. -/
inductive Lands (points : List (ℚ × ℚ)) (a : ℚ) : ℚ → Prop
  | before {first : ℚ × ℚ} (hfirst : points[0]? = some first) (hle : a ≤ first.1) :
    Lands points a first.2
  | within {j : ℕ} {q p : ℚ × ℚ} (hq : points[j]? = some q) (hp : points[j + 1]? = some p)
    (hlt : q.1 < a) (hle : a ≤ p.1) : Lands points a (chord q p a)
  | behind {last : ℚ × ℚ} (hlast : points[points.length - 1]? = some last) (hlt : last.1 < a) :
    Lands points a last.2

section

variable [Scalar ℚ] {t : Table ℚ}

/-- **What is looked up lands where the argument stands.** -/
theorem Through.lands_lookup (h : t.Through points) (hexact : ExactValues) (a : ℚ) :
    Lands points a (t.lookup a) := by
  obtain ⟨first, hfirst⟩ := h.exists_first
  obtain ⟨last, hlast⟩ := h.exists_last
  have hord := hexact.ordered
  have hdef := hexact.defined a
  rcases lt_or_ge a first.1 with hbefore | hbegin
  · rw [lookup_of_less_first h hdef hfirst (by rwa [hexact.less, decide_eq_true_iff])]
    exact .before (List.head?_eq_getElem? ▸ hfirst) hbefore.le
  rcases lt_or_ge last.1 a with hbehind | hend
  · rw [lookup_of_last_less h hdef hord hlast (by rwa [hexact.less, decide_eq_true_iff])]
    exact .behind (List.getLast?_eq_getElem? ▸ hlast) hbehind
  obtain ⟨i, p, hreached, hhit, hline⟩ := exists_reached h hdef hord hfirst
    (by rwa [hexact.less, decide_eq_false_iff_not, not_lt]) hlast
    (by rwa [hexact.less, decide_eq_false_iff_not, not_lt])
  have hle : a ≤ p.1 := by
    have := hreached.reached
    rwa [hexact.less, decide_eq_false_iff_not, not_lt] at this
  cases i with
  | zero =>
    rw [hhit (Or.inl rfl)]
    exact .before hreached.point hle
  | succ j =>
    obtain ⟨q, hq⟩ : ∃ q, points[j]? = some q := by
      obtain ⟨hlt, -⟩ := List.getElem?_eq_some_iff.mp hreached.point
      exact ⟨_, List.getElem?_eq_getElem (Nat.lt_of_succ_lt hlt)⟩
    have hlt : q.1 < a := by
      have := hreached.least j q j.lt_succ_self hq
      rwa [hexact.less, decide_eq_true_iff] at this
    have hvalue : t.lookup a = chord q p a := by
      by_cases hsame : p.1 = a
      · rw [hhit (Or.inr (by rw [hexact.near, decide_eq_true_iff, hsame])), ← hsame,
          chord_right (hlt.trans_eq hsame.symm)]
      · rw [hline j q rfl hq (by rw [hexact.near, decide_eq_false_iff_not]; exact hsame), secant,
          hexact.add, hexact.mul, hexact.sub, hexact.div, hexact.sub, hexact.sub, chord]
    rw [hvalue]
    exact .within hq hreached.point hlt hle

end

/-! ## Bounds -/

/-- **The bounds of the value at an argument** by all points of a table, and inside its range by the
two points next to the argument. Of these the one is before it and the other is not; the first point
may have no point before it. -/
structure Bounded (points : List (ℚ × ℚ)) (a v : ℚ) : Prop where
  all : ∃ least ∈ points, ∃ greatest ∈ points,
    (∀ p ∈ points, least.2 ≤ p.2 ∧ p.2 ≤ greatest.2) ∧ least.2 ≤ v ∧ v ≤ greatest.2
  next : ∀ first ∈ points.head?, ∀ last ∈ points.getLast?, first.1 ≤ a → a ≤ last.1 →
    (a = first.1 ∧ v = first.2) ∨ ∃ (j : ℕ) (q p : ℚ × ℚ), points[j]? = some q ∧
      points[j + 1]? = some p ∧ q.1 < a ∧ a ≤ p.1 ∧ v ∈ Set.uIcc q.2 p.2

namespace Lands

theorem mem_uIcc (h : Lands points a v) : ∃ p ∈ points, ∃ q ∈ points, v ∈ Set.uIcc p.2 q.2 := by
  cases h with
  | before hfirst =>
    have hmem := List.mem_of_getElem? hfirst
    exact ⟨_, hmem, _, hmem, Set.left_mem_uIcc⟩
  | within hq hp hlt hle =>
    exact ⟨_, List.mem_of_getElem? hq, _, List.mem_of_getElem? hp, chord_mem_uIcc hlt hle⟩
  | behind hlast =>
    have hmem := List.mem_of_getElem? hlast
    exact ⟨_, hmem, _, hmem, Set.left_mem_uIcc⟩

theorem bounded (h : Lands points a v) : Bounded points a v where
  all := by
    obtain ⟨p, hp, q, hq, hv⟩ := h.mem_uIcc
    have hne : points.toFinset.Nonempty := ⟨p, List.mem_toFinset.mpr hp⟩
    obtain ⟨least, hleast, hmin⟩ := points.toFinset.exists_min_image Prod.snd hne
    obtain ⟨greatest, hgreatest, hmax⟩ := points.toFinset.exists_max_image Prod.snd hne
    have hall : ∀ r ∈ points, least.2 ≤ r.2 ∧ r.2 ≤ greatest.2 := fun r hr =>
      ⟨hmin r (List.mem_toFinset.mpr hr), hmax r (List.mem_toFinset.mpr hr)⟩
    refine ⟨least, List.mem_toFinset.mp hleast, greatest, List.mem_toFinset.mp hgreatest, hall, ?_⟩
    obtain ⟨hlow, hhigh⟩ := Set.mem_Icc.mp hv
    exact ⟨(le_min (hall p hp).1 (hall q hq).1).trans hlow,
      hhigh.trans (max_le (hall p hp).2 (hall q hq).2)⟩
  next first hfirst last hlast hbegin hend := by
    cases h with
    | before hfirst' hle =>
      obtain rfl := Option.some.inj (hfirst'.symm.trans (List.head?_eq_getElem? ▸ hfirst))
      exact Or.inl ⟨le_antisymm hle hbegin, rfl⟩
    | within hq hp hlt hle =>
      exact Or.inr ⟨_, _, _, hq, hp, hlt, hle, chord_mem_uIcc hlt hle⟩
    | behind hlast' hlt =>
      obtain rfl := Option.some.inj (hlast'.symm.trans (List.getLast?_eq_getElem? ▸ hlast))
      exact absurd hend (not_le.mpr hlt)

end Lands

/-! ## Rising and falling -/

namespace Lands

variable {R : ℚ → ℚ → Prop} (hR : Tendency R)
  (hsorted : points.Pairwise fun p q => p.1 ≤ q.1) (hall : points.Pairwise fun p q => R p.2 q.2)
include hR hall

/-- A table that goes in a direction goes there from its first point, -/
theorem first_related (h : Lands points a v) (hfirst : points[0]? = some first) : R first.2 v := by
  cases h with
  | before hfirst' => exact hR.of_le hall le_rfl hfirst hfirst'
  | @within j q p hq hp hlt hle =>
    have hsegment := hR.of_le hall j.le_succ hq hp
    exact hR.trans (hR.of_le hall j.zero_le hfirst hq) (hR.left_chord hsegment hlt hle)
  | behind hlast => exact hR.of_le hall (Nat.zero_le _) hfirst hlast

/-- and to its last. -/
theorem related_last (h : Lands points a v) (hlast : points[points.length - 1]? = some last) :
    R v last.2 := by
  cases h with
  | before hfirst => exact hR.of_le hall (Nat.zero_le _) hfirst hlast
  | @within j q p hq hp hlt hle =>
    have hsegment := hR.of_le hall j.le_succ hq hp
    have hj : j + 1 < points.length := (List.getElem?_eq_some_iff.mp hp).1
    exact hR.trans (hR.chord_right hsegment hlt hle)
      (hR.of_le hall (Nat.le_sub_one_of_lt hj) hp hlast)
  | behind hlast' => exact hR.of_le hall le_rfl hlast' hlast

include hsorted

/-- **A table goes in the direction of its points.** -/
theorem related (ha : Lands points a v) (hb : Lands points b w) (hab : a ≤ b) : R v w := by
  have hargs : ∀ {i j : ℕ} {p q : ℚ × ℚ}, i ≤ j → points[i]? = some p → points[j]? = some q →
      p.1 ≤ q.1 := fun hij hp hq =>
    rel_of_le (R := fun p q : ℚ × ℚ => p.1 ≤ q.1) (fun p => le_refl p.1) hsorted hij hp hq
  cases ha with
  | before hfirst => exact hb.first_related hR hall hfirst
  | @within i q p hq hp hlt hle =>
    cases hb with
    | before hfirst hle' =>
      have := hargs (Nat.zero_le i) hfirst hq
      linarith
    | behind hlast => exact (Lands.within hq hp hlt hle).related_last hR hall hlast
    | @within j q' p' hq' hp' hlt' hle' =>
      have hsegment := hR.of_le hall i.le_succ hq hp
      have hsegment' := hR.of_le hall j.le_succ hq' hp'
      rcases lt_trichotomy i j with hij | rfl | hji
      · -- The end of the one line and the start of the other stand between the two.
        have hbetween := hR.of_le hall hij hp hq'
        exact hR.trans (hR.chord_right hsegment hlt hle)
          (hR.trans hbetween (hR.left_chord hsegment' hlt' hle'))
      · obtain rfl := Option.some.inj (hq.symm.trans hq')
        obtain rfl := Option.some.inj (hp.symm.trans hp')
        exact hR.chord (hlt.trans_le hle) hsegment hab
      · have := hargs hji hp' hq
        linarith
  | behind hlast hlt =>
    cases hb with
    | before hfirst hle =>
      have := hargs (Nat.zero_le _) hfirst hlast
      linarith
    | @within j q p hq hp hlt' hle =>
      have hj : j + 1 < points.length := (List.getElem?_eq_some_iff.mp hp).1
      have := hargs (Nat.le_sub_one_of_lt hj) hp hlast
      linarith
    | behind hlast' => exact hR.of_le hall le_rfl hlast hlast'

end Lands

/-- **A table is bounded by its points,** and rises or falls if their values do. -/
theorem course_of_lookup [Scalar ℚ] (hexact : ExactValues) {t : Table ℚ}
    (ht : ofPoints points = .ok t) : (∀ a, Bounded points a (t.lookup a)) ∧
      ((points.map Prod.snd).Pairwise (· ≤ ·) → Monotone t.lookup) ∧
      ((points.map Prod.snd).Pairwise (· ≥ ·) → Antitone t.lookup) := by
  have h := through_of_ofPoints hexact.ordered ht fun p _ => hexact.defined p.1
  have hlands := h.lands_lookup hexact
  have hsorted : points.Pairwise fun p q => p.1 ≤ q.1 := h.sorted.imp fun hnot => by
    rwa [hexact.less, decide_eq_false_iff_not, not_lt] at hnot
  refine ⟨fun a => (hlands a).bounded, fun hrise a b hab => ?_, fun hfall a b hab => ?_⟩
  · exact (hlands a).related tendency_le hsorted (List.pairwise_map.mp hrise) (hlands b) hab
  · exact (hlands a).related (R := (· ≥ ·)) tendency_ge hsorted (List.pairwise_map.mp hfall)
      (hlands b) hab

theorem exactValues_exactScalar : ExactValues :=
  ⟨fun _ _ => rfl, fun _ _ => rfl, fun _ _ => rfl, fun _ _ => rfl, fun _ _ => rfl, fun _ _ => rfl,
    fun _ => rfl⟩

/-- A table that leaps upwards at 1. -/
def rising : List (ℚ × ℚ) := [(0, 1), (1, 2), (1, 6), (3, 7)]

theorem course_of_lookup_rising : ∃ t : Table ℚ, ofPoints rising = .ok t ∧ Monotone t.lookup ∧
    Bounded rising 2 (t.lookup 2) ∧ t.lookup 1 = 2 ∧ t.lookup 2 = 13 / 2 := by
  have ht : ofPoints rising = .ok ⟨#[0, 1, 1, 3], #[1, 2, 6, 7]⟩ :=
    ofPoints_eq_ok.mpr ⟨by decide, by decide +kernel, rfl⟩
  obtain ⟨hbounded, hmono, _⟩ := course_of_lookup exactValues_exactScalar ht
  exact ⟨_, ht, hmono (by decide +kernel), hbounded 2, by decide +kernel, by decide +kernel⟩

end Table

end StockFlow
