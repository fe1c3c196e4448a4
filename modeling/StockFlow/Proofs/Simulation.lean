import StockFlow.Proofs.Engine.History
import StockFlow.Proofs.Project

/-!
# Simulations of a text

* `Project.run_has_no_fault` — while the board is open, a model that was accepted does not go wrong
* `Project.whole_iff_untroubled` — a run that ends well leaves a whole simulation exactly if no run
  failed before
-/

namespace StockFlow.Project

open Sim

variable {text : String} {p : Project} {id : SimId} {name label : String}
  {spec : Timespec Float} {s₀ s : Sim Float} {b₀ b : Board Float} {log : Log Float} {fuel : Nat}
  {target : Float} {r : Reached Float}

/-! ## Nothing goes wrong -/

/-- **A model that was accepted does not go wrong while the board is open.** Whatever was run, set
and asked before, a run has no fault: every variable, default and table that it asks for is found.
In each state that it goes through the time and all recorded variables have values, and what it
records is those values, so that the mark for what is undefined never stands for a missing one. -/
theorem run_has_no_fault (hp : ofText text = .ok p)
    (hs : p.instantiateWith id name label spec = .ok s₀) (hb : b₀.remaining = none)
    (h : History s₀ b₀ log s b) (hlog : log.KeptOpen) (hr : s.runTo fuel target b = some r) :
    log.Untroubled ∧ r.fault = none ∧
      (∀ t ∈ s.trail fuel target b, ∀ n ∈ timeName :: t.report.names, ∃ x, t.value n = .ok x) ∧
      r.sim.report.rows.toList =
        s.report.rows.toList ++ ((s.trail fuel target b).filter isDue).map row := by
  obtain ⟨hsound₀, hfresh⟩ := sound_of_instantiateWith hp hs
  have hsound := hsound₀.continues h.continues
  have halive := h.alive_of_running (Or.inl hfresh) hsound₀ hlog hb
  have hok := halive.fault_of_running hsound (h.remaining hlog hb) hr
  refine ⟨?_, hok, ?_, halive.rows_runTo hsound hr hok⟩
  · rcases h.condition (Or.inl hfresh) hsound₀ with ⟨hlog, _⟩ | ⟨_, hbad⟩
    · exact hlog
    · have hclosed := hbad.elim Stuck.closed Broken.closed
      rw [Board.isOpen_of_remaining_none (h.remaining hlog hb)] at hclosed
      cases hclosed
  · intro t ht n hn
    obtain ⟨hsettled, hcont⟩ := halive.forall_trail hsound t ht
    have hsound' := hsound.continues hcont
    refine value_ok_iff.mpr (hsettled n ?_)
    rcases List.mem_cons.mp hn with rfl | hrec
    · exact List.mem_cons_self ..
    · exact hsound'.model.recorded (hsound'.names ▸ hrec)

/-- The rate is set, the level starts, and it grows at the rate that was set. -/
def growthRuns : Option (Project × Sim Float × Reached Float × Reached Float) := do
  let (p, s) ← growthSim oneStep
  let r := s.setValue "rate" 5 .empty
  let r₁ ← r.sim.runTo 5 0 r.board
  let r₂ ← r₁.sim.runTo 5 1 r₁.board
  if r.fault = none ∧ r₁.fault = none ∧ r₂.sim.report.rows.size = 2 then
    return (p, s, r₁, r₂)
  else none

theorem run_has_no_fault_growth : ∃ p s₀ s b r, ofText growth = .ok p ∧
    p.instantiateWith 0 "main" "main" oneStep = .ok s₀ ∧
    History s₀ .empty [(.set "rate" 5, none), (.run 0, none)] s b ∧ s.runTo 5 1 b = some r ∧
    r.fault = none ∧ r.sim.report.rows.size = 2 := by
  have hsome : growthRuns.isSome = true := by decide +kernel
  obtain ⟨runs, hruns⟩ := Option.isSome_iff_exists.mp hsome
  obtain ⟨⟨p, s₀⟩, hsim, hruns⟩ := Option.bind_eq_some_iff.mp hruns
  obtain ⟨r₁, hr₁, hruns⟩ := Option.bind_eq_some_iff.mp hruns
  obtain ⟨r₂, hr₂, hruns⟩ := Option.bind_eq_some_iff.mp hruns
  obtain ⟨⟨hf, hf₁, hrows⟩, _⟩ := Option.ite_none_right_eq_some.mp hruns
  obtain ⟨hp, hs⟩ := of_trial hsim
  have hfirst : History s₀ .empty [] s₀ .empty := .nil
  have hhist := (hfirst.snoc (.set "rate" 5)).snoc (.run hr₁)
  rw [hf, hf₁] at hhist
  have hopen : Log.KeptOpen ([] ++ [(Call.set "rate" (5 : Float), none)] ++ [(.run 0, none)]) := by
    intro e he
    simp only [List.nil_append, List.cons_append, List.mem_cons, List.not_mem_nil, or_false] at he
    rcases he with rfl | rfl <;> exact id
  have hmain := run_has_no_fault hp hs rfl hhist hopen hr₂
  exact ⟨p, s₀, _, _, r₂, hp, hs, hhist, hr₂, hmain.2.1, hrows⟩

/-! ## Honest answers -/

/-- **A run that ends well leaves a whole simulation exactly if no run failed before,** whatever was
run, set and asked before and whenever the board was closed. -/
theorem whole_iff_untroubled (hp : ofText text = .ok p)
    (hs : p.instantiateWith id name label spec = .ok s₀) (h : History s₀ b₀ log s b)
    (hr : s.runTo fuel target b = some r) (hok : r.fault = none) :
    r.sim.Whole ↔ log.Untroubled := by
  obtain ⟨hsound, hfresh⟩ := sound_of_instantiateWith hp hs
  exact h.whole_iff (Or.inl hfresh) hsound hr hok

/-- The level starts, the board is closed, and the level is run to its end twice. -/
def stoppedRuns : Option (Project × Sim Float × Reached Float × Reached Float) := do
  let (p, s) ← growthSim oneStep
  let r₁ ← s.runTo 5 0 .empty
  let r₂ ← r₁.sim.runTo 5 1 (r₁.board.serve .close).2
  let r₃ ← r₂.sim.runTo 5 1 r₂.board
  if r₁.fault = none ∧ r₂.fault = some (.stopped "rate") ∧ r₃.fault = none ∧
      r₃.sim.phase = .complete ∧ r₃.sim.report.rows.size ≠ r₃.sim.step / r₃.sim.saveEvery + 1 ∧
      (r₃.sim.values["rate"]?).isNone then
    return (p, s, r₂, r₃)
  else none

/-- What was called there, with the faults that were answered. -/
def stoppedLog : Log Float :=
  [(.run 0, none), (.request .close, none), (.run 1, some (.stopped "rate"))]

theorem exists_stoppedRuns : ∃ p s₀ s b r, ofText growth = .ok p ∧
    p.instantiateWith 0 "main" "main" oneStep = .ok s₀ ∧
    History s₀ .empty stoppedLog s b ∧ s.runTo 5 1 b = some r ∧ r.fault = none ∧
    r.sim.phase = .complete ∧ r.sim.report.rows.size ≠ r.sim.step / r.sim.saveEvery + 1 ∧
    r.sim.values["rate"]? = none := by
  have hsome : stoppedRuns.isSome = true := by decide +kernel
  obtain ⟨runs, hruns⟩ := Option.isSome_iff_exists.mp hsome
  obtain ⟨⟨p, s₀⟩, hsim, hruns⟩ := Option.bind_eq_some_iff.mp hruns
  obtain ⟨r₁, hr₁, hruns⟩ := Option.bind_eq_some_iff.mp hruns
  obtain ⟨r₂, hr₂, hruns⟩ := Option.bind_eq_some_iff.mp hruns
  obtain ⟨r₃, hr₃, hruns⟩ := Option.bind_eq_some_iff.mp hruns
  obtain ⟨⟨hf₁, hf₂, hf₃, hphase, hrows, hrate⟩, _⟩ := Option.ite_none_right_eq_some.mp hruns
  obtain ⟨hp, hs⟩ := of_trial hsim
  have hhist := ((History.nil.snoc (.run hr₁)).snoc (.request .close)).snoc (.run hr₂)
  rw [hf₁, hf₂] at hhist
  exact ⟨p, s₀, _, _, r₃, hp, hs, hhist, hr₃, hf₃, hphase, hrows,
    Option.isNone_iff_eq_none.mp hrate⟩

/-- **A run can answer that all is well and complete though a row is missing** and a variable has no
value any more: the run before it was stopped in a step, after time and stocks had moved. -/
theorem complete_and_not_whole : ∃ p s₀ s b r, ofText growth = .ok p ∧
    p.instantiateWith 0 "main" "main" oneStep = .ok s₀ ∧
    History s₀ .empty stoppedLog s b ∧ s.runTo 5 1 b = some r ∧ r.fault = none ∧
    r.sim.phase = .complete ∧ ¬r.sim.Whole := by
  obtain ⟨p, s₀, s, b, r, hp, hs, h, hr, hok, hphase, hrows, _⟩ := exists_stoppedRuns
  exact ⟨p, s₀, s, b, r, hp, hs, h, hr, hok, hphase, fun hw => hrows hw.rows⟩

theorem whole_iff_untroubled_growth : ∃ p s₀ s b r, ofText growth = .ok p ∧
    p.instantiateWith 0 "main" "main" oneStep = .ok s₀ ∧
    History s₀ .empty stoppedLog s b ∧ s.runTo 5 1 b = some r ∧ r.fault = none ∧
    (r.sim.Whole ↔ Log.Untroubled stoppedLog) := by
  obtain ⟨p, s₀, s, b, r, hp, hs, h, hr, hok, _⟩ := exists_stoppedRuns
  exact ⟨p, s₀, s, b, r, hp, hs, h, hr, hok, whole_iff_untroubled hp hs h hr hok⟩

end StockFlow.Project
