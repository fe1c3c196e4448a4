import Mathlib.Data.Set.Finite.Lemmas
import StockFlow.Proofs.Double.Half
import StockFlow.Proofs.Engine.History
import StockFlow.Proofs.Engine.Stages
import StockFlow.Proofs.Model.Timespec
import StockFlow.Proofs.Project

/-!
# Simulations of a text in stages

* `Sim.Furthest` — the time of a list that a run to all of them comes to
* `Project.run_in_stages` — in how many stages a simulation is run does not matter
-/

namespace StockFlow

open Doubles

/-! ## The furthest time -/

namespace Sim

variable {s : Sim Float} {ts : List Float} {t u : Float}

/-- **A time of the list that none of it lies behind,** as runs compare times: half a step later. -/
structure Furthest (s : Sim Float) (ts : List Float) (u : Float) : Prop where
  mem : u ∈ ts
  le : ∀ t ∈ ts, s.nudged t ≤ s.nudged u

/-- A run to a later time leads at least as far. -/
theorem covers_of_le (h : s.nudged t ≤ s.nudged u) : s.Covers u t := by
  intro x hpass
  obtain ⟨a, c, ha, hc, hac⟩ := exists_level_of_le h
  obtain ⟨c', d, hc', hd, hcd⟩ := exists_level_of_lt (of_decide_eq_true hpass)
  cases hc.symm.trans hc'
  exact decide_eq_true ((lt_iff ha hd).mpr (hac.trans_lt hcd))

theorem exists_level_nudged (hdt : s.spec.dt.isFinite = true) (ht : t.isNaN = false) :
    ∃ a, level? (s.nudged t) = some a :=
  exists_level_add ht (isFinite_half hdt)

/-- **Of some numbers one is the furthest.** -/
theorem exists_furthest (hdt : s.spec.dt.isFinite = true) (hne : ts ≠ [])
    (hts : ∀ t ∈ ts, t.isNaN = false) : ∃ u, s.Furthest ts u := by
  obtain ⟨u, hu, hmax⟩ := Set.exists_max_image {t | t ∈ ts} (fun t => (level? (s.nudged t)).getD 0)
    (List.finite_toSet ts) (List.exists_mem_of_ne_nil ts hne)
  refine ⟨u, hu, fun t ht => ?_⟩
  obtain ⟨a, ha⟩ := exists_level_nudged hdt (hts t ht)
  obtain ⟨c, hc⟩ := exists_level_nudged hdt (hts u hu)
  have hle := hmax t ht
  simp only [ha, hc, Option.getD_some] at hle
  exact (le_iff ha hc).mpr hle

end Sim

/-! ## Runs of a text -/

namespace Project

open Sim

variable {text : String} {p : Project} {id : SimId} {name label : String}
  {spec : Timespec Float} {s₀ : Sim Float} {b₀ : Board Float} {ts : List Float}

/-- **In how many stages a simulation is run does not matter.** Runs to some times, one after the
other in whatever order, end exactly if one run to the furthest of them ends, and both lead to the
same state. From there a run to a time that is not further changes nothing. -/
theorem run_in_stages (hp : ofText text = .ok p)
    (hs : p.instantiateWith id name label spec = .ok s₀) (hb : b₀.remaining = none) (hne : ts ≠ [])
    (hts : ∀ t ∈ ts, t.isNaN = false) :
    (∃ u, s₀.Furthest ts u) ∧ ∀ u, s₀.Furthest ts u →
      (∀ r, (∃ n, runThrough n ts s₀ b₀ = some r) ↔ ∃ n, s₀.runTo n u b₀ = some r) ∧
      ∀ n r, s₀.runTo n u b₀ = some r → r.fault = none ∧ r.board = b₀ ∧
        ∀ t, s₀.nudged t ≤ s₀.nudged u → ∀ m, r.sim.runTo (m + 1) t r.board = some r := by
  obtain ⟨hsound, hfresh⟩ := sound_of_instantiateWith hp hs
  obtain ⟨_, _, hcheck, hcreate⟩ := eq_of_instantiateWith hs
  have hdt : s₀.spec.dt.isFinite = true := by
    rw [hcreate]
    exact (Timespec.isFinite_and_pos_of_check hcheck).1 .dt
  refine ⟨exists_furthest hdt hne hts, fun u hu => ⟨fun r => ?_, fun n r hr => ?_⟩⟩
  · exact runThrough_iff_runTo hu.mem fun t ht => covers_of_le (hu.le t ht)
  · have hok := Alive.fault_of_running (Or.inl hfresh) hsound hb hr
    exact ⟨hok, (spent_runTo hr).eq_of_running hb,
      fun t ht m => runTo_covered hr hok (covers_of_le ht) m⟩

/-- Three steps of one. -/
def threeSteps : Timespec Float := ⟨0, 3, 1, 1⟩

/-- The level is run to a time before its start, to one that it reaches, there once more, back, and
to a time beyond its end. -/
def stages : List Float := [-5, 1, 1, 0, 9]

/-- The same as one run. -/
def stagesRuns : Option (Project × Sim Float × Reached Float) := do
  let (p, s) ← growthSim threeSteps
  let r ← runThrough 9 stages s .empty
  if stages.all (fun t => decide (s.nudged t ≤ s.nudged 9)) ∧ r.sim.phase = .complete ∧
      r.sim.step = 3 then
    return (p, s, r)
  else none

theorem run_in_stages_growth : ∃ p s₀ n r, ofText growth = .ok p ∧
    p.instantiateWith 0 "main" "main" threeSteps = .ok s₀ ∧ runThrough 9 stages s₀ .empty = some r ∧
    s₀.runTo n 9 .empty = some r ∧ r.fault = none ∧ r.sim.phase = .complete ∧ r.sim.step = 3 := by
  have hsome : stagesRuns.isSome = true := by decide +kernel
  have hnum : ∀ t ∈ stages, t.isNaN = false := by
    simp only [stages, List.forall_mem_cons, List.not_mem_nil, false_imp_iff, implies_true,
      and_true]
    decide +kernel
  obtain ⟨runs, hruns⟩ := Option.isSome_iff_exists.mp hsome
  obtain ⟨⟨p, s₀⟩, hsim, hruns⟩ := Option.bind_eq_some_iff.mp hruns
  obtain ⟨r, hr, hruns⟩ := Option.bind_eq_some_iff.mp hruns
  obtain ⟨⟨hle, hphase, hstep⟩, _⟩ := Option.ite_none_right_eq_some.mp hruns
  obtain ⟨hp, hs⟩ := of_trial hsim
  have hlast : s₀.Furthest stages 9 :=
    ⟨by simp [stages], fun t ht => of_decide_eq_true (List.all_eq_true.mp hle t ht)⟩
  have hempty : (Board.empty : Board Float).remaining = none := rfl
  have hstages : stages ≠ [] := nofun
  obtain ⟨_, hmain⟩ := run_in_stages hp hs hempty hstages hnum
  obtain ⟨hiff, hrun⟩ := hmain 9 hlast
  obtain ⟨n, hn⟩ := (hiff r).mp ⟨9, hr⟩
  exact ⟨p, s₀, n, r, hp, hs, hr, hn, (hrun n r hn).1, hphase, hstep⟩

end Project

end StockFlow
