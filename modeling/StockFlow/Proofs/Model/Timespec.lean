import StockFlow.Model.Timespec
import StockFlow.Proofs.Double.Order

/-!
# The times of a specification

* `Timespec.time` — the times that a specification goes through, rounded as doubles are
* `Timespec.Ends` — they rise, and they pass the end
* `Timespec.Moves` — the step moves every double that they could meet
* `Timespec.Passable` — it moves three of them, which can be computed
* `Timespec.ends_iff` — all three come to the same
-/

namespace StockFlow.Timespec

open Doubles

variable {spec : Timespec Float} {a b : Int}

/-! ## Times -/

/-- The times after each number of steps. -/
def time (spec : Timespec Float) : Nat → Float
  | 0 => spec.start
  | k + 1 => spec.time k + spec.dt

/-- The end, moved on by half a step. Once a step would lead past it, no more is made. -/
def bound (spec : Timespec Float) : Float := spec.stop + spec.dt / 2

/-- **The times rise until they pass the end,** and they pass it. -/
structure Ends (spec : Timespec Float) : Prop where
  rises : ∀ k, ¬spec.bound < spec.time (k + 1) → spec.time k < spec.time (k + 1)
  passes : ∃ k, spec.bound < spec.time (k + 1)

/-- **The step moves every double** from the time of the first step on that is not past the end. -/
def Moves (spec : Timespec Float) : Prop :=
  ∀ t, spec.time 1 ≤ t → ¬spec.bound < t → t < t + spec.dt

/-- **The step moves the time of the first step, the bound and the time a step before the bound,**
unless the first step is past the bound already. -/
def Passable (spec : Timespec Float) : Prop :=
  spec.bound < spec.time 1 ∨
    spec.time 1 < spec.time 1 + spec.dt ∧ spec.bound < spec.bound + spec.dt ∧
      (spec.time 1 ≤ spec.bound - spec.dt →
        spec.bound - spec.dt < spec.bound - spec.dt + spec.dt)

instance (spec : Timespec Float) : Decidable spec.Passable := inferInstanceAs (Decidable (_ ∨ _))

/-! ## Levels -/

theorem isFinite_and_pos_of_check {spec' : Timespec Float} (h : spec.check = .ok spec') :
    (∀ key, (spec.get key).isFinite = true) ∧ 0 < spec.dt := by
  have hfault : spec.fault? = none := by
    unfold check at h
    cases hf : spec.fault? with
    | none => rfl
    | some e => rw [hf] at h; cases h
  unfold fault? at hfault
  cases hfind : [Key.start, .stop, .dt, .saveStep].find? fun k => !(spec.get k).isFinite with
  | some key => rw [hfind] at hfault; cases hfault
  | none =>
    simp only [hfind] at hfault
    constructor
    · intro key
      have hall := List.find?_eq_none.mp hfind key (by cases key <;> decide)
      simpa using hall
    · by_cases hpos : 0 < spec.dt
      · exact hpos
      · simp [hpos] at hfault

/-- The levels of the start and of the step: both are finite, and the step is positive. -/
structure Leveled (spec : Timespec Float) (a b : Int) : Prop where
  start : level? spec.start = some a
  above : -topLevel < a
  dt : level? spec.dt = some b
  pos : 0 < b
  below : b < topLevel

theorem leveled_of_check {spec' : Timespec Float} (h : spec.check = .ok spec') :
    ∃ a b, spec.Leveled a b := by
  obtain ⟨hfinite, hpos⟩ := isFinite_and_pos_of_check h
  obtain ⟨a, ha, habove, _⟩ := exists_level_of_isFinite (hfinite .start)
  obtain ⟨b, hb, _, hbelow⟩ := exists_level_of_isFinite (hfinite .dt)
  exact ⟨a, b, ha, habove, hb, (lt_iff level_zero hb).mp hpos, hbelow⟩

namespace Leveled

/-- The levels of the times. -/
theorem level_time (h : spec.Leveled a b) (k : Nat) :
    level? (spec.time k) = some ((stepped b)^[k] a) ∧ -topLevel < (stepped b)^[k] a := by
  induction k with
  | zero => exact ⟨h.start, h.above⟩
  | succ k ih =>
    obtain ⟨hlevel, habove⟩ := ih
    rw [Function.iterate_succ_apply']
    exact ⟨level_add hlevel h.dt habove h.pos h.below,
      habove.trans_le (le_stepped hlevel h.pos.le)⟩

theorem step_le (h : spec.Leveled a b) (k : Nat) :
    (stepped b)^[k] a ≤ (stepped b)^[k + 1] a := by
  rw [Function.iterate_succ_apply']
  exact le_stepped (h.level_time k).1 h.pos.le

/-- Times never fall. -/
theorem mono (h : spec.Leveled a b) {k l : Nat} (hkl : k ≤ l) :
    (stepped b)^[k] a ≤ (stepped b)^[l] a :=
  monotone_nat_of_le_succ h.step_le hkl

/-- What is past the end stays past it. -/
theorem passes_of_le (h : spec.Leveled a b) {k l : Nat} (hpass : spec.bound < spec.time k)
    (hkl : k ≤ l) : spec.bound < spec.time l := by
  obtain ⟨c, d, hc, hd, hlt⟩ := exists_level_of_lt hpass
  cases hd.symm.trans (h.level_time k).1
  exact (lt_iff hc (h.level_time l).1).mpr (hlt.trans_le (h.mono hkl))

/-- **If the times rise until they pass the end, they pass it.** They cannot rise for ever. -/
theorem passes_of_rises (h : spec.Leveled a b)
    (hrises : ∀ k, ¬spec.bound < spec.time (k + 1) → spec.time k < spec.time (k + 1)) :
    ∃ k, spec.bound < spec.time (k + 1) := by
  by_contra hnever
  have hstep : ∀ k, (stepped b)^[k] a < (stepped b)^[k + 1] a := fun k =>
    (lt_iff (h.level_time k).1 (h.level_time (k + 1)).1).mp
      (hrises k fun hpass => hnever ⟨k, hpass⟩)
  have hgrow : ∀ k : Nat, a + k ≤ (stepped b)^[k] a := by
    intro k
    induction k with
    | zero => simp
    | succ k ih =>
      have := hstep k
      omega
  have hfar := hgrow (2 * topLevel).toNat
  have hmost := (level_bounds (h.level_time (2 * topLevel).toNat).1).2
  have := h.above
  omega

/-- A double that the step does not move is never passed. -/
theorem time_le (h : spec.Leveled a b) {t : Float} (ht : spec.time 1 ≤ t)
    (hstuck : ¬t < t + spec.dt) (k : Nat) : spec.time (k + 1) ≤ t := by
  obtain ⟨c, d, hc, hd, hle⟩ := exists_level_of_le ht
  cases hc.symm.trans (h.level_time 1).1
  have habove : -topLevel < d := (h.level_time 1).2.trans_le hle
  rw [lt_iff hd (level_add hd h.dt habove h.pos h.below)] at hstuck
  rw [le_iff (h.level_time (k + 1)).1 hd]
  induction k with
  | zero => exact hle
  | succ k ih =>
    rw [Function.iterate_succ_apply']
    have := stepped_mono (b := b) ih
    omega

/-- **Where the step moves every double that the times could meet, they rise** until they pass the
end. -/
theorem rises_of_moves (h : spec.Leveled a b) (hmoves : spec.Moves) (k : Nat)
    (hbound : ¬spec.bound < spec.time (k + 1)) : spec.time k < spec.time (k + 1) := by
  have hle : ∀ {j l : Nat}, j ≤ l → spec.time j ≤ spec.time l := fun hjl =>
    (le_iff (h.level_time _).1 (h.level_time _).1).mpr (h.mono hjl)
  cases k with
  | zero =>
    -- If the start is not moved, the time of the first step is the same double once more.
    have hmove := hmoves (spec.time 1) (hle le_rfl) hbound
    rw [show spec.time 1 + spec.dt = spec.time 2 from rfl,
      lt_iff (h.level_time 1).1 (h.level_time 2).1] at hmove
    rw [lt_iff (h.level_time 0).1 (h.level_time 1).1]
    by_contra hstuck
    have heq : (stepped b)^[1] a = (stepped b)^[0] a := le_antisymm (not_lt.mp hstuck) (h.step_le 0)
    rw [Function.iterate_succ_apply' _ 1, heq] at hmove
    exact hstuck hmove
  | succ k =>
    exact hmoves (spec.time (k + 1)) (hle (by omega)) fun hpass =>
      hbound (h.passes_of_le hpass (by omega))

/-- **Where the times pass the end, the step moves every double that they could meet.** They would
never get past one that it does not move. -/
theorem moves_of_passes (h : spec.Leveled a b) (hpasses : ∃ k, spec.bound < spec.time (k + 1)) :
    spec.Moves := by
  intro t ht hbound
  by_contra hstuck
  obtain ⟨k, hpass⟩ := hpasses
  obtain ⟨c, d, hc, hd, hlt⟩ := exists_level_of_lt hpass
  obtain ⟨d', e, hd', he, hle⟩ := exists_level_of_le (h.time_le ht hstuck k)
  cases hd.symm.trans hd'
  exact hbound ((lt_iff hc he).mpr (hlt.trans_le hle))

/-- **The times rise and pass the end exactly if the step moves every double that they could
meet.** -/
theorem ends_iff_moves (h : spec.Leveled a b) : spec.Ends ↔ spec.Moves := by
  constructor
  · intro hends
    exact h.moves_of_passes hends.passes
  · intro hmoves
    have hrises := h.rises_of_moves hmoves
    exact ⟨hrises, h.passes_of_rises hrises⟩

/-! ## Three doubles -/

theorem not_lt_add_iff (h : spec.Leveled a b) {t : Float} {c : Int} (ht : level? t = some c)
    (habove : -topLevel < c) : ¬t < t + spec.dt ↔ stepped b c ≤ c := by
  rw [lt_iff ht (level_add ht h.dt habove h.pos h.below), not_lt]

theorem passable_of_moves (h : spec.Leveled a b) (hmoves : spec.Moves) : spec.Passable := by
  have hfirst := (h.level_time 1).1
  by_cases hpast : spec.bound < spec.time 1
  · exact Or.inl hpast
  · -- the bound is passed, so it is a number and finite
    obtain ⟨k, hpass⟩ := (h.ends_iff_moves.mpr hmoves).passes
    obtain ⟨c, e, hc, he, hlt⟩ := exists_level_of_lt hpass
    have hhigh := (level_bounds he).2
    have hle : (stepped b)^[1] a ≤ c := not_lt.mp (mt (lt_iff hc hfirst).mpr hpast)
    have hlow := (h.level_time 1).2.trans_le hle
    have hback := level_sub hc h.dt hlow (hlt.trans_le hhigh) h.pos h.below
    refine Or.inr ⟨?_, ?_, ?_⟩
    · exact hmoves _ ((le_iff hfirst hfirst).mpr le_rfl) hpast
    · have hself : ¬spec.bound < spec.bound := mt (lt_iff hc hc).mp (lt_irrefl c)
      exact hmoves _ ((le_iff hfirst hc).mpr hle) hself
    · intro hbefore
      refine hmoves _ hbefore ?_
      rw [lt_iff hc hback, not_lt]
      exact steppedBack_le hc h.pos.le

/-- A double that the step does not move shows at one of the three. From zero on the step is lost at
the bound or a step before it, below zero it is lost at once. -/
theorem moves_of_passable (h : spec.Leveled a b) (hpassable : spec.Passable) : spec.Moves := by
  intro t ht hbound
  obtain ⟨c, d, hc, hd, hle⟩ := exists_level_of_le ht
  cases hc.symm.trans (h.level_time 1).1
  have habove : -topLevel < d := (h.level_time 1).2.trans_le hle
  rcases hpassable with hpast | ⟨hfirst, hlast, hbefore⟩
  · obtain ⟨e, c', he, hc', hlt⟩ := exists_level_of_lt hpast
    cases hc.symm.trans hc'
    exact absurd ((lt_iff he hd).mpr (hlt.trans_le hle)) hbound
  · by_contra hstuck
    rw [h.not_lt_add_iff hd habove] at hstuck
    have hself := roundedLevel_of_level hd
    obtain ⟨e, f, he, hf, hef⟩ := exists_level_of_lt hlast
    have hde : d ≤ e := not_lt.mp (mt (lt_iff he hd).mpr hbound)
    have hlow : -topLevel < e := habove.trans_le hde
    have hhigh : e < topLevel := hef.trans_le (level_bounds hf).2
    by_cases hnonneg : 0 ≤ d
    · rcases stuck_above h.pos hnonneg hself (roundedLevel_of_level he) hde hhigh hstuck with
        hend | ⟨hde', hend⟩
      · exact (h.not_lt_add_iff he hlow).mpr hend hlast
      · have hback := level_sub he h.dt hlow hhigh h.pos h.below
        exact (h.not_lt_add_iff hback (habove.trans_le hde')).mpr hend
          (hbefore ((le_iff hc hback).mpr (hle.trans hde')))
    · have hstart : a ≤ d := (h.step_le 0).trans hle
      refine (h.not_lt_add_iff hc (h.level_time 1).2).mpr ?_ hfirst
      rw [Function.iterate_one]
      rcases stuck_below h.pos (not_le.mp hnonneg) hself (roundedLevel_of_level h.start) hstart
        h.above hstuck with hbegin | hbegin
      · rw [le_antisymm hbegin (le_stepped h.start h.pos.le)]
        exact hbegin
      · exact hbegin

end Leveled

/-- **The times rise and pass the end exactly if the step moves three doubles.** -/
theorem ends_iff {spec' : Timespec Float} (h : spec.check = .ok spec') :
    spec.Ends ↔ spec.Passable := by
  obtain ⟨a, b, h⟩ := leveled_of_check h
  exact h.ends_iff_moves.trans ⟨h.passable_of_moves, h.moves_of_passable⟩

-- The bound is rounded up to a power of two, from which a step of one is lost.
example : ¬(⟨0, 9007199254740991, 1, 1⟩ : Timespec Float).Passable := by decide +kernel

end StockFlow.Timespec
