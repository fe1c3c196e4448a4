import StockFlow.Proofs.Decimal.Written
import StockFlow.Proofs.Double.Quotient
import StockFlow.Proofs.Engine.SavePoints
import StockFlow.Proofs.Equation.Share
import StockFlow.Proofs.Project

/-!
# What simulations of a text record

* `Timespec.one_le_saveEvery` — at least one step lies between records
* `Compiled.recorded_eq` — the recorded names are those of the statements, in their order
* `Project.rows_at_save_points` — the rows of a report are those of the save points
-/

namespace StockFlow

open Decimal

/-! ## The distance between records -/

theorem decode_ne_nan {x : Float} (h : x.isNaN = false) : Binary64.decode x ≠ .nan := by
  change x.toModel.unpack.isNaN = false at h
  rw [decode_eq]
  cases hu : x.toModel.unpack with
  | notANumber => rw [hu] at h; cases h
  | infinity | zero | finite => exact nofun

/-- **At least one step lies between records.** A quotient that is no number would make it none, and
however large the quotient is, there is one. -/
theorem Timespec.one_le_saveEvery {spec spec' : Timespec Float} (h : spec.check = .ok spec') :
    1 ≤ spec.saveEvery := by
  obtain ⟨hfinite, hpos⟩ := isFinite_and_pos_of_check h
  have hnumber : (spec.saveStep / spec.dt).isNaN = false :=
    Doubles.isNaN_div (hfinite .saveStep) hpos (hfinite .dt)
  have hlimit : 1 ≤ maxCount := by decide
  unfold saveEvery
  cases hd : Binary64.decode (spec.saveStep / spec.dt) with
  | nan => exact absurd hd (decode_ne_nan hnumber)
  | infinite negative =>
    cases negative with
    | true => exact le_rfl
    | false => exact hlimit
  | finite negative m q =>
    cases negative with
    | true => exact le_rfl
    | false => exact le_min (le_max_right ..) hlimit

/-! ## The recorded names -/

/-- Whether the variable of a statement stands in the report. -/
def Stmt.isRecorded (s : Stmt) : Bool :=
  match s.kind with
  | .ok .table => false
  | _ => true

/-- The names of the variables that stand in the report, in the order of their statements. -/
def Definition.recorded (d : Definition) : List String :=
  (d.varStmts.filter Stmt.isRecorded).map Stmt.name

namespace Compiled

variable {d : Definition} {names : Names} {found : List (String × Contribution)} {m : Model Float}

/-- **The recorded names are those of the statements,** in their order. -/
theorem recorded_eq (h : Compiled d names found m) : m.recorded = d.recorded := by
  unfold Model.recorded Definition.recorded
  rw [h.vars]
  have hpaired := h.contributed
  generalize d.varStmts = stmts at hpaired
  clear h
  induction hpaired with
  | nil => rfl
  | @cons s p stmts found hp _ ih =>
    obtain ⟨hname, v, k, hv, hkind, hc⟩ := hp
    have hk : p.2.kind = k := (Stmt.Yields.given hv hc).kind
    have hsame : Variable.isRecorded ⟨p.1, p.2.kind, p.2.constant, p.2.table⟩ = s.isRecorded := by
      rw [Stmt.isRecorded, hkind, Variable.isRecorded, hk]
      cases k <;> rfl
    rw [List.map_cons, List.filter_cons, List.filter_cons, hsame]
    cases s.isRecorded with
    | false => exact ih
    | true =>
      rw [if_pos rfl, if_pos rfl, List.map_cons, List.map_cons, ih]
      exact congrArg (· :: _) hname

theorem nodup_recorded (h : Compiled d names found m) : m.recorded.Nodup := by
  rw [h.recorded_eq]
  exact h.inOrder.distinct.sublist (List.filter_sublist.map _)

theorem time_not_recorded (h : Compiled d names found m) : timeName ∉ m.recorded := by
  intro hmem
  obtain ⟨c, hc, _⟩ := h.mem_recorded.mp hmem
  exact h.time_not_mem hc rfl

end Compiled

/-! ## Simulations of a text -/

namespace Project

open Sim

variable {text : String} {p : Project} {id : SimId} {name label : String}
  {spec : Timespec Float} {s₀ s : Sim Float} {b₀ b : Board Float} {log : Log Float}
  {states : List (Sim Float)}

/-- **The rows of a report are those of the save points.** A simulation is run and its variables are
set in any order, while others may turn to the board as long as nobody closes it. At least one step
lies between records. Once the simulation has started it went through one state for each step, and
the report has one row for each that is a save point: the time, with the step added up as often, and
the values that the recorded variables had in that state, in the order of their statements. The
series of a variable are these times and its column. Rows stay whatever happens then. -/
theorem rows_at_save_points (hp : ofText text = .ok p)
    (hs : p.instantiateWith id name label spec = .ok s₀) (hb : b₀.remaining = none)
    (h : Traced s₀ b₀ log states s b) (hlog : log.KeptOpen) :
    1 ≤ spec.saveEvery ∧ s.saveEvery = spec.saveEvery ∧ s.spec = spec ∧
      (∃ ds d, (File.parse text).definitions = .ok ds ∧
        ds.find? (fun d => d.name = name) = some d ∧ s.model.recorded = d.recorded) ∧
      (s.phase ≠ .fresh → s.Saved states) ∧
      ∀ log' s' b', History s b log' s' b' →
        s.report.rows.toList <+: s'.report.rows.toList := by
  obtain ⟨hsound, hfresh⟩ := sound_of_instantiateWith hp hs
  obtain ⟨m, hm, hspec, rfl⟩ := eq_of_instantiateWith hs
  obtain ⟨ds, d, _, _, hds, hd, hcompiled⟩ := compiled_of_runnable hp hm
  have hcont := h.history.continues
  have hmodel : s.model = m := hcont.model
  have hontime := h.onTime hsound (onTime_create id label m spec spec.saveEvery)
  have htracks := h.tracks hfresh hsound hlog hb
  refine ⟨Timespec.one_le_saveEvery hspec, hcont.saveEvery, hcont.spec, ?_, fun hphase => ?_, ?_⟩
  · exact ⟨ds, d, hds, hd, hmodel ▸ hcompiled.recorded_eq⟩
  · exact htracks.saved hsound hcont hphase hontime (hmodel ▸ hcompiled.nodup_recorded)
      (hmodel ▸ hcompiled.time_not_recorded)
  · exact fun log' s' b' hlater => hlater.rows_prefix (hsound.continues hcont)

/-- A span of three steps, of which every other is recorded. -/
def everyOther : Timespec Float := ⟨0, 3, 1, 2⟩

/-- The level grows for a step, its rate is set, and it grows to its end. -/
def growthSaves : Option (Project × Sim Float × Reached Float × Reached Float) := do
  let (p, s) ← growthSim everyOther
  let r₁ ← s.runTo 5 1 .empty
  let r₂ := r₁.sim.setValue "rate" 5 r₁.board
  let r₃ ← r₂.sim.runTo 5 3 r₂.board
  if r₁.fault = none ∧ r₂.fault = none ∧ r₃.fault = none ∧ r₃.sim.step = 3 ∧
      r₃.sim.saveEvery = 2 ∧ r₃.sim.phase = .complete ∧
      r₃.sim.model.recorded = ["rate", "level"] then
    return (p, s, r₁, r₃)
  else none

theorem rows_at_save_points_growth : ∃ p s₀ states s b, ofText growth = .ok p ∧
    p.instantiateWith 0 "main" "main" everyOther = .ok s₀ ∧
    Traced s₀ .empty [(.run 1, none), (.set "rate" 5, none), (.run 3, none)] states s b ∧
    s.step = 3 ∧ s.saveEvery = 2 ∧ s.model.recorded = ["rate", "level"] ∧ s.Saved states := by
  have hsome : growthSaves.isSome = true := by decide +kernel
  obtain ⟨runs, hruns⟩ := Option.isSome_iff_exists.mp hsome
  obtain ⟨⟨p, s₀⟩, hsim, hruns⟩ := Option.bind_eq_some_iff.mp hruns
  obtain ⟨r₁, hr₁, hruns⟩ := Option.bind_eq_some_iff.mp hruns
  obtain ⟨r₃, hr₃, hruns⟩ := Option.bind_eq_some_iff.mp hruns
  obtain ⟨⟨hf₁, hf₂, hf₃, hstep, hevery, hphase, hrecorded⟩, _⟩ :=
    Option.ite_none_right_eq_some.mp hruns
  obtain ⟨hp, hs⟩ := of_trial hsim
  have htraced := ((Traced.nil.run hr₁).other (.set "rate" 5) id).run hr₃
  rw [hf₁, hf₂, hf₃] at htraced
  have hopen : Log.KeptOpen
      ([] ++ [(.run 1, none)] ++ [(Call.set "rate" (5 : Float), none)] ++ [(.run 3, none)]) := by
    intro e he
    simp only [List.nil_append, List.cons_append, List.mem_cons, List.not_mem_nil, or_false] at he
    rcases he with rfl | rfl | rfl <;> exact id
  obtain ⟨_, _, _, _, hsaved, _⟩ := rows_at_save_points hp hs rfl htraced hopen
  exact ⟨p, s₀, _, _, _, hp, hs, htraced, hstep, hevery, hrecorded,
    hsaved (by rw [hphase]; exact nofun)⟩

end Project

end StockFlow
