import StockFlow.Proofs.Engine.Balance
import StockFlow.Proofs.Project

/-!
# Settings between runs

* `Project.balanced_iff_unmoved` — what a simulation of a text holds between runs and settings
  solves the rules of a step exactly if no setting since the last run moves what another rule
  computes
-/

namespace StockFlow.Project

open Sim

variable {text : String} {p : Project} {id : SimId} {name label : String}
  {spec : Timespec Float} {s₀ s : Sim Float} {b₀ b : Board Float}
  {last : Option (Sim Float × Board Float)}

/-- **Every state that a run goes through solves the rules of a step,** whatever was run and set
before it. Between runs a state is the last of these but for the values that are pinned, and it
solves the rules exactly if each of them that asks for no default computes what it computed
there. -/
theorem balanced_iff_unmoved (hp : ofText text = .ok p)
    (hs : p.instantiateWith id name label spec = .ok s₀) (hb : b₀.remaining = none)
    (h : Steered s₀ b₀ last s b) :
    (∀ fuel target, ∀ u ∈ s.trail fuel target b, u.Balanced b) ∧
      (s.phase ≠ .fresh → ∃ t c, last = some (t, c) ∧ t.Balanced c ∧
        (∀ n, s.values[n]? = t.values[n]? ∨ s.values[n]? = b.pinned? s.id n) ∧
        (s.Balanced b ↔ ∀ q ∈ s.model.equations.flows, q.formula.asked = [] →
          (s.eval q.formula b).1 = (t.eval q.formula c).1)) := by
  obtain ⟨hsound₀, hfresh⟩ := sound_of_instantiateWith hp hs
  have hsound := hsound₀.continues h.continues
  constructor
  · intro fuel target u hu
    exact (balanced_trail hsound (h.remaining hb) u hu).1
  · intro hbegun
    obtain ⟨t, c, hlast, hsince⟩ := h.setSince hsound₀ hb hfresh.phase hbegun
    exact ⟨t, c, hlast, hsince.balanced, hsince.values, hsince.balanced_iff⟩

/-! ## A setting that is not followed up -/

/-- A level that loses its rate and gains twice of it. The rate can be set. -/
def doubled : String :=
  "model main \x7b rate aux = 2; twice = rate * 2; " ++
    "level = \x7binitial: 0, inflow: twice, outflow: rate\x7d; \x7d"

/-- The level starts, and the rate is set. The rule for twice the rate computes 10 now, but the
value is still 4. -/
def doubledRuns : Option (Project × Sim Float × Reached Float × Reached Float) := do
  let (p, s) ← trial doubled oneStep
  let r₁ ← s.runTo 5 0 .empty
  let r₂ := r₁.sim.setValue "rate" 5 r₁.board
  let q ← r₂.sim.model.equations.flows.find? fun q => q.name = "twice"
  let held ← (r₂.sim.value q.name).toOption
  let computed ← (r₂.sim.eval q.formula r₂.board).1.toOption
  if r₁.fault = none ∧ r₂.fault = none ∧ (s.trail 5 0 .empty).length ≠ 0 ∧
      r₂.sim.phase ≠ .fresh ∧ held.toBits = (4 : Float).toBits ∧
      computed.toBits = (10 : Float).toBits then
    return (p, s, r₁, r₂)
  else none

theorem exists_doubledRuns : ∃ p s₀ t c s b, ofText doubled = .ok p ∧
    p.instantiateWith 0 "main" "main" oneStep = .ok s₀ ∧ Steered s₀ .empty (some (t, c)) s b ∧
    s.phase ≠ .fresh ∧ ∃ q ∈ s.model.equations.flows, ∃ x y, s.value q.name = .ok x ∧
      (s.eval q.formula b).1 = .ok y ∧ x.toBits = (4 : Float).toBits ∧
      y.toBits = (10 : Float).toBits := by
  have hsome : doubledRuns.isSome = true := by decide +kernel
  obtain ⟨runs, hruns⟩ := Option.isSome_iff_exists.mp hsome
  obtain ⟨⟨p, s₀⟩, hsim, hruns⟩ := Option.bind_eq_some_iff.mp hruns
  obtain ⟨r₁, hr₁, hruns⟩ := Option.bind_eq_some_iff.mp hruns
  obtain ⟨q, hq, hruns⟩ := Option.bind_eq_some_iff.mp hruns
  obtain ⟨held, hheld, hruns⟩ := Option.bind_eq_some_iff.mp hruns
  obtain ⟨computed, hcomputed, hruns⟩ := Option.bind_eq_some_iff.mp hruns
  obtain ⟨⟨hok₁, hok₂, hmoves, hbegun, hfour, hten⟩, _⟩ := Option.ite_none_right_eq_some.mp hruns
  obtain ⟨hp, hs⟩ := of_trial hsim
  have hmoved : Steered s₀ .empty (some (r₁.sim, r₁.board)) r₁.sim r₁.board :=
    .moved .nil hr₁ hok₁ (List.length_pos_iff.mp (Nat.pos_of_ne_zero hmoves))
  exact ⟨p, s₀, r₁.sim, r₁.board, _, _, hp, hs, hmoved.set hok₂, hbegun, q,
    List.mem_of_find?_eq_some hq, held, computed, eq_ok_of_toOption hheld,
    eq_ok_of_toOption hcomputed, hfour, hten⟩

/-- **A setting can leave a state that does not solve the rules of a step:** a variable that is made
from the one that was set keeps its old value. -/
theorem set_and_not_balanced : ∃ p s₀ t c s b, ofText doubled = .ok p ∧
    p.instantiateWith 0 "main" "main" oneStep = .ok s₀ ∧ Steered s₀ .empty (some (t, c)) s b ∧
    s.phase ≠ .fresh ∧ ¬s.Balanced b := by
  obtain ⟨p, s₀, t, c, s, b, hp, hs, h, hbegun, q, hq, x, y, hx, hy, hfour, hten⟩ :=
    exists_doubledRuns
  refine ⟨p, s₀, t, c, s, b, hp, hs, h, hbegun, ?_⟩
  intro hbalanced
  obtain ⟨z, hz, heval⟩ := hbalanced q hq
  rw [hx] at hz
  rw [hy] at heval
  cases hz
  cases heval
  rw [hfour] at hten
  exact absurd hten (by decide +kernel)

theorem balanced_iff_unmoved_doubled : ∃ p s₀ t c s b, ofText doubled = .ok p ∧
    p.instantiateWith 0 "main" "main" oneStep = .ok s₀ ∧ Steered s₀ .empty (some (t, c)) s b ∧
    s.phase ≠ .fresh ∧ t.Balanced c ∧
    (s.Balanced b ↔ ∀ q ∈ s.model.equations.flows, q.formula.asked = [] →
      (s.eval q.formula b).1 = (t.eval q.formula c).1) := by
  obtain ⟨p, s₀, t, c, s, b, hp, hs, h, hbegun, _⟩ := exists_doubledRuns
  obtain ⟨_, hbetween⟩ := balanced_iff_unmoved hp hs rfl h
  obtain ⟨t', c', hlast, hbalanced, _, hiff⟩ := hbetween hbegun
  cases hlast
  exact ⟨p, s₀, t, c, s, b, hp, hs, h, hbegun, hbalanced, hiff⟩

end StockFlow.Project
