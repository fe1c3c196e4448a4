import StockFlow.Proofs.Engine.Mirror
import StockFlow.Proofs.Project

/-!
# The order of statements does not matter

* `Definition.results_of_rearranged` — a model and the same model with its statements in another
  order are both accepted or both refused, and compute and report the same
-/

namespace StockFlow

namespace Sim

/-- Two sequences of runs go through states with the same values, and neither ends, or both get
through, end with the same values and leave the same report. -/
def SameResults (x y : List (Sim Float) × Option (Reached Float)) : Prop :=
  List.Forall₂ (fun t t' => t'.step = t.step ∧ t'.time = t.time ∧ ∀ n, t'.value n = t.value n)
    x.1 y.1 ∧
  ((x.2 = none ∧ y.2 = none) ∨ ∃ r r', x.2 = some r ∧ y.2 = some r' ∧
    r.fault = none ∧ r'.fault = none ∧ (∀ n, r'.sim.value n = r.sim.value n) ∧
    r'.sim.report.tsv = r.sim.report.tsv)

/-- New simulations of rearranged models are twins. -/
theorem twins_create {m m' : Model Float} (h : m.Rearranged m') (hs : m.Sound) (hs' : m'.Sound)
    (i j : SimId) (label : String) (spec : Timespec Float) (saveEvery : Nat) :
    Twins (create i label m spec saveEvery) .empty (create j label m' spec saveEvery) .empty where
  mirrors := ⟨rfl, h, rfl, rfl, fun _ => rfl, rfl, rfl, rfl, h.recorded, [], rfl, rfl⟩
  boards := ⟨rfl, rfl, fun _ => rfl⟩
  sound := sound_create hs ..
  sound' := sound_create hs' ..
  alive := Or.inl (fresh_create ..)
  alive' := Or.inl (fresh_create ..)

theorem Twins.sameResults {s s' : Sim Float} {b b' : Board Float} (h : Twins s b s' b')
    (fuel : Nat) (targets : List Float) :
    SameResults (Sim.runAll fuel targets s b) (Sim.runAll fuel targets s' b') := by
  obtain ⟨hall, hend⟩ := h.runAll fuel targets
  refine ⟨hall.imp fun u u' hu => ⟨hu.step, hu.time, hu.value⟩, ?_⟩
  rcases hend with hnone | ⟨t, t', hr, hr', htwins⟩
  · exact Or.inl hnone
  · exact Or.inr ⟨_, _, hr, hr', rfl, rfl, htwins.mirrors.value, htwins.mirrors.tsv⟩

end Sim

namespace Definition

variable {d : Definition} {stmts : List Stmt} {m m' : Model Float}

theorem sound_of_compile (h : d.analyze >>= Analysis.compile = .ok m)
    (habstract : m.isAbstract = false) : m.Sound := by
  obtain ⟨a, ha, hm⟩ := bind_eq_ok.mp h
  obtain ⟨_, _, hcompiled⟩ := compiled_of_compile ha hm habstract
  exact hcompiled.sound

/-- **The order of statements does not matter.** A model of distinct statements and the same model
with its statements in another order are both accepted or both refused. Where they are accepted and
every variable is given, they compute the same value for every variable in every state of every
sequence of runs over every span, also of runs that do not come to an end; where these end, they end
with the same values and the text of their reports is the same. -/
theorem results_of_rearranged (hnd : (d.stmts.map Stmt.name).Nodup) (hp : stmts.Perm d.stmts) :
    ((∃ m, d.analyze >>= Analysis.compile = .ok m) ↔
      ∃ m', (d.rearranged stmts).analyze >>= Analysis.compile = .ok m') ∧
    ∀ m m', d.analyze >>= Analysis.compile = .ok m →
      (d.rearranged stmts).analyze >>= Analysis.compile = .ok m' →
      m'.isInterface = m.isInterface ∧ m'.isAbstract = m.isAbstract ∧
      (m.isAbstract = false → ∀ i j label spec fuel targets,
        Sim.SameResults
          (Sim.runAll fuel targets (.create i label m spec spec.saveEvery) .empty)
          (Sim.runAll fuel targets (.create j label m' spec spec.saveEvery) .empty)) := by
  constructor
  · constructor
    · rintro ⟨m, hm⟩
      obtain ⟨m', hm', _⟩ := compile_rearranged hnd hp hm
      exact ⟨m', hm'⟩
    · rintro ⟨m', hm'⟩
      have hnd' : (stmts.map Stmt.name).Nodup := (hp.map Stmt.name).nodup_iff.mpr hnd
      obtain ⟨m, hm, _⟩ := compile_rearranged (d := d.rearranged stmts) hnd' hp.symm hm'
      exact ⟨m, hm⟩
  · intro m m' hm hm'
    obtain ⟨_, hm'', h⟩ := compile_rearranged hnd hp hm
    cases hm'.symm.trans hm''
    refine ⟨h.isInterface, h.isAbstract, ?_⟩
    intro habstract i j label spec fuel targets
    have hs := sound_of_compile hm habstract
    have hs' := sound_of_compile hm' (h.isAbstract.trans habstract)
    exact (Sim.twins_create h hs hs' i j label spec spec.saveEvery).sameResults fuel targets

/-- The only definition of the small text, if its statements have distinct names and it can be made
ready with them the other way round. -/
def growthDefinition : Option Definition := do
  let ds ← (File.parse Project.growth).definitions.toOption
  let d ← ds.head?
  let m ← (d.analyze >>= Analysis.compile).toOption
  let _ ← ((d.rearranged d.stmts.reverse).analyze >>= Analysis.compile).toOption
  if (d.stmts.map Stmt.name).Nodup ∧ m.isAbstract = false ∧ d.stmts.length = 2 then some d else none

theorem results_of_rearranged_growth : ∃ (d : Definition) (m m' : Model Float),
    (d.stmts.map Stmt.name).Nodup ∧ d.stmts.length = 2 ∧
    d.analyze >>= Analysis.compile = .ok m ∧
    (d.rearranged d.stmts.reverse).analyze >>= Analysis.compile = .ok m' ∧
    Sim.SameResults (Sim.runAll 5 [0, 1] (.create 0 "main" m Project.oneStep 1) .empty)
      (Sim.runAll 5 [0, 1] (.create 0 "main" m' Project.oneStep 1) .empty) := by
  have hsome : growthDefinition.isSome = true := by decide +kernel
  obtain ⟨d, hd⟩ := Option.isSome_iff_exists.mp hsome
  obtain ⟨ds, _, hd⟩ := Option.bind_eq_some_iff.mp hd
  obtain ⟨d', _, hd⟩ := Option.bind_eq_some_iff.mp hd
  obtain ⟨m, hm, hd⟩ := Option.bind_eq_some_iff.mp hd
  obtain ⟨m', hm', hd⟩ := Option.bind_eq_some_iff.mp hd
  obtain ⟨⟨hnd, habstract, hlength⟩, hd⟩ := Option.ite_none_right_eq_some.mp hd
  cases hd
  have hok := Project.eq_ok_of_toOption hm
  have hok' := Project.eq_ok_of_toOption hm'
  obtain ⟨_, hresults⟩ := results_of_rearranged hnd d.stmts.reverse_perm
  obtain ⟨_, _, hsame⟩ := hresults m m' hok hok'
  have hevery : Project.oneStep.saveEvery = 1 := by decide +kernel
  refine ⟨d, m, m', hnd, hlength, hok, hok', ?_⟩
  rw [← hevery]
  exact hsame habstract 0 0 "main" Project.oneStep 5 [0, 1]

end Definition

end StockFlow
