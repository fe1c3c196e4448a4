import StockFlow.Proofs.Engine.Clock
import StockFlow.Proofs.Project

/-!
# Runs that end

* `Project.runs_end_iff` — when the runs of a simulation end, whatever happens to it
* `Project.run_without_end` — a specification that is accepted and a run that does not end
-/

namespace StockFlow.Project

open Sim

variable {text : String} {p : Project} {id : SimId} {name label : String}
  {spec : Timespec Float} {s₀ : Sim Float}

/-- **The times of a specification that was accepted rise until they pass the end, and every run
ends, exactly if the step moves three doubles:** the time of the first step, the bound and the time
a step before the bound. Accepting a specification tests another one, the largest of its times. -/
theorem runs_end_iff (hp : ofText text = .ok p)
    (hs : p.instantiateWith id name label spec = .ok s₀) :
    (spec.Ends ↔ spec.Passable) ∧
      ((∀ b₀ log s b target, History s₀ b₀ log s b → ∃ fuel r, s.runTo fuel target b = some r) ↔
        spec.Passable) := by
  obtain ⟨hsound, hfresh⟩ := sound_of_instantiateWith hp hs
  obtain ⟨m, _, hcheck, rfl⟩ := eq_of_instantiateWith hs
  obtain ⟨a, c, hlevel⟩ := Timespec.leveled_of_check hcheck
  have htime := onTime_create id label m spec spec.saveEvery
  have hends := Timespec.ends_iff hcheck
  refine ⟨hends, ?_, ?_⟩
  · -- a run to the end on a board of its own has passed the bound
    intro hruns
    obtain ⟨fuel, r, hr⟩ := hruns .empty [] _ .empty spec.stop .nil
    have hok := Alive.fault_of_running (Or.inl hfresh) hsound rfl hr
    exact hlevel.passable_of_moves
      (hlevel.moves_of_passes (htime.passes_of_runTo hsound nofun hr hok))
  · intro hpassable b₀ log s b target hist
    obtain ⟨k, hpass⟩ := (hends.mpr hpassable).passes
    refine (hist.onTime htime hsound).exists_runTo (hsound.continues hist.continues) (k := k)
      ?_ target b
    intro l hl
    rw [hist.continues.spec]
    exact hlevel.passes_of_le hpass (by omega)

theorem runs_end_iff_growth : ∃ p s₀, ofText growth = .ok p ∧
    p.instantiateWith 0 "main" "main" oneStep = .ok s₀ ∧ oneStep.Ends ∧
    ∀ b₀ log s b target, History s₀ b₀ log s b → ∃ fuel r, s.runTo fuel target b = some r := by
  have hsome : (growthSim oneStep).isSome = true := by decide +kernel
  have hpassable : oneStep.Passable := by decide +kernel
  obtain ⟨⟨p, s₀⟩, hsim⟩ := Option.isSome_iff_exists.mp hsome
  obtain ⟨hp, hs⟩ := of_trial hsim
  obtain ⟨hends, hruns⟩ := runs_end_iff hp hs
  exact ⟨p, s₀, hp, hs, hends.mpr hpassable, hruns.mpr hpassable⟩

/-! ## A run that does not end -/

/-- A span among large times, where half of the doubles that a step of one leads to are rounded
back. -/
def stuckSpec : Timespec Float := ⟨9007199254740996, 9007199254740998, 1, 1⟩

/-- **A specification can be accepted under which a run does not end:** the largest time is moved by
the step, but the start is not. -/
theorem run_without_end : ∃ p s₀, ofText growth = .ok p ∧
    p.instantiateWith 0 "main" "main" stuckSpec = .ok s₀ ∧ ¬stuckSpec.Ends ∧
    ∀ fuel, s₀.runTo fuel stuckSpec.stop .empty = none := by
  have hsome : (growthSim stuckSpec).isSome = true := by decide +kernel
  have hstuck : ¬stuckSpec.Passable := by decide +kernel
  obtain ⟨⟨p, s₀⟩, hsim⟩ := Option.isSome_iff_exists.mp hsome
  obtain ⟨hp, hs⟩ := of_trial hsim
  obtain ⟨hsound, hfresh⟩ := sound_of_instantiateWith hp hs
  obtain ⟨m, _, hcheck, hcreate⟩ := eq_of_instantiateWith hs
  obtain ⟨a, b, hlevel⟩ := Timespec.leveled_of_check hcheck
  refine ⟨p, s₀, hp, hs, mt (Timespec.ends_iff hcheck).mp hstuck, ?_⟩
  intro fuel
  rw [Option.eq_none_iff_forall_ne_some]
  intro r hr
  have hok := Alive.fault_of_running (Or.inl hfresh) hsound rfl hr
  have htime := onTime_create 0 "main" m stuckSpec stuckSpec.saveEvery
  rw [hcreate] at hsound hr
  exact hstuck (hlevel.passable_of_moves
    (hlevel.moves_of_passes (htime.passes_of_runTo hsound nofun hr hok)))

end StockFlow.Project
