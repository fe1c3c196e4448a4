import StockFlow.Proofs.Engine.Influence
import StockFlow.Proofs.Project

/-!
# Settings before the first run

A constant that is set before anything is computed might as well have been written into the model.
Only a starting value that is taken from the constant would tell the difference: it is computed
before the board is asked.

* `Model.withConstant` — a model with another value for a constant
* `Model.Sound.withConstant` — its rules still find all that they read
* `Project.set_as_written` — setting the constant first comes to the same
-/

namespace StockFlow

variable {α : Type}

/-- A rule that gives a constant to a variable, and else is what it was. -/
def Rule.withConstant (c : String) (v : α) (r : Rule α) : Rule α :=
  if r.name = c then ⟨c, .const v⟩ else r

/-- A variable with a constant, and else what it was. -/
def Variable.withConstant (c : String) (v : α) (x : Variable α) : Variable α :=
  if x.name = c then { x with default := some v } else x

/-- **A model with another value for a constant:** it starts with it, and it is its default. -/
def Model.withConstant (m : Model α) (c : String) (v : α) : Model α :=
  { m with
    vars := m.vars.map (Variable.withConstant c v)
    defaults := m.defaults.insert c v
    equations := { m.equations with
      initials := m.equations.initials.map (Rule.withConstant c v) } }

/-! ## Rules -/

section

variable {c : String} {v : α} {r : Rule α}

theorem Rule.withConstant_name (c : String) (v : α) (r : Rule α) :
    (r.withConstant c v).name = r.name := by
  unfold withConstant
  split
  · rename_i h
    exact h.symm
  · rfl

theorem Rule.withConstant_of_ne (h : r.name ≠ c) : r.withConstant c v = r := if_neg h

/-- A constant reads nothing, so nothing more is read than before. -/
theorem Rule.withConstant_reads (c : String) (v : α) (r : Rule α) :
    (r.withConstant c v).formula.vars ⊆ r.formula.vars ∧
      (r.withConstant c v).formula.asked ⊆ r.formula.asked ∧
      (r.withConstant c v).formula.tables ⊆ r.formula.tables := by
  unfold withConstant
  split
  · exact ⟨nofun, nofun, nofun⟩
  · exact ⟨fun _ h => h, fun _ h => h, fun _ h => h⟩

theorem ruleNames_withConstant (c : String) (v : α) (rules : List (Rule α)) :
    ruleNames (rules.map (Rule.withConstant c v)) = ruleNames rules := by
  unfold ruleNames
  rw [List.map_map]
  exact List.map_congr_left fun r _ => r.withConstant_name c v

theorem InOrder.withConstant {rules : List (Rule α)} (h : InOrder rules) (c : String) (v : α) :
    InOrder (rules.map (Rule.withConstant c v)) := by
  induction h with
  | nil => exact .nil
  | @cons r rules honce hreads _ ih =>
    refine .cons ?_ ?_ ih
    · rw [r.withConstant_name, ruleNames_withConstant]
      exact honce
    · intro n hn
      rw [← List.map_cons, ruleNames_withConstant]
      exact hreads n ((r.withConstant_reads c v).1 hn)

end

/-! ## Models -/

namespace Model

variable {m : Model α} {c : String} {v : α}

theorem recorded_withConstant (m : Model α) (c : String) (v : α) :
    (m.withConstant c v).recorded = m.recorded := by
  unfold recorded withConstant
  induction m.vars with
  | nil => rfl
  | cons x vars ih =>
    have hname : (x.withConstant c v).name = x.name := by
      unfold Variable.withConstant
      split <;> rfl
    have hrecorded : (x.withConstant c v).isRecorded = x.isRecorded := by
      unfold Variable.withConstant
      split <;> rfl
    rw [List.map_cons, List.filter_cons, List.filter_cons, hrecorded]
    split
    · rw [List.map_cons, List.map_cons, hname, ih]
    · exact ih

theorem declares_withConstant (m : Model α) (c : String) (v : α) (n : String) :
    (m.withConstant c v).declares n = m.declares n := by
  unfold declares withConstant
  rw [List.any_map]
  congr 1
  funext x
  unfold Function.comp Variable.withConstant
  split <;> rfl

/-- **The rules of a model with another value for a constant still find all that they read.** -/
theorem Sound.withConstant (h : m.Sound) (c : String) (v : α) : (m.withConstant c v).Sound where
  initials := h.initials.withConstant c v
  flows := h.flows
  distinct := h.distinct
  initials_names := (ruleNames_withConstant c v _).symm ▸ h.initials_names
  started := (ruleNames_withConstant c v _).symm ▸ h.started
  initials_vars := by
    intro q hq n hn
    obtain ⟨r, hr, rfl⟩ := List.mem_map.mp hq
    show n = timeName ∨ n ∈ ruleNames (m.equations.initials.map (Rule.withConstant c v))
    rw [ruleNames_withConstant]
    exact h.initials_vars r hr n ((r.withConstant_reads c v).1 hn)
  initials_asked := by
    intro q hq
    obtain ⟨r, hr, rfl⟩ := List.mem_map.mp hq
    exact List.subset_nil.mp (h.initials_asked r hr ▸ (r.withConstant_reads c v).2.1)
  initials_tables := by
    intro q hq
    obtain ⟨r, hr, rfl⟩ := List.mem_map.mp hq
    exact List.subset_nil.mp (h.initials_tables r hr ▸ (r.withConstant_reads c v).2.2)
  vars := h.vars
  tables := h.tables
  stocks_asked := h.stocks_asked
  flows_asked := by
    intro r hr hasks
    obtain ⟨hform, hdef, hrec⟩ := h.flows_asked r hr hasks
    refine ⟨hform, ?_, m.recorded_withConstant c v ▸ hrec⟩
    show ((m.defaults.insert c v)[r.name]?).isSome
    rw [Sim.getElem?_insert_values]
    split
    · rfl
    · exact hdef
  recorded := m.recorded_withConstant c v ▸ h.recorded

/-- **Another value for a constant that no starting value is taken from** makes a difference for the
constant alone, and only until it is computed anew. -/
theorem sameOutside_withConstant (hc : c ∈ ruleNames m.equations.flows)
    (hreads : ∀ r ∈ m.equations.initials, r.name ≠ c → c ∉ r.formula.reads) (v : α) :
    m.SameOutside (fun _ => False) (· = c) (m.withConstant c v) where
  flows := rfl
  stocks := rfl
  tables := rfl
  declares := m.declares_withConstant c v
  initialNames := ruleNames_withConstant c v _
  initials := by
    intro r hr hne
    refine ⟨List.mem_map.mpr ⟨r, hr, Rule.withConstant_of_ne hne⟩, ?_⟩
    rintro n hn rfl
    exact hreads r hr hne (Formula.mem_reads.mpr hn)
  reads _ _ _ _ _ := id
  time := id
  wider _ := False.elim
  anew n hn := Or.inr (hn ▸ hc)

end Model

/-- **A constant of its own kind can be set:** it asks for its default at each step. -/
theorem Compiled.settable_of_constant {d : Definition} {names : Names}
    {found : List (String × Contribution)} {m : Model Float} (h : Compiled d names found m)
    {x : Variable Float} (hx : x ∈ m.vars) (hk : x.kind = .aux ∨ x.kind = .flow)
    (hd : x.default.isSome = true) : m.declares x.name = true ∧ m.isOverridable x.name = true := by
  refine ⟨List.any_eq_true.mpr ⟨x, hx, decide_eq_true rfl⟩, ?_⟩
  rw [h.vars] at hx
  obtain ⟨⟨n, c⟩, hmem, rfl⟩ := List.mem_map.mp hx
  have hflow : c.flow = some (.default n) := by
    obtain ⟨s, _, v, k, rfl, _, _, hc⟩ := h.of_mem_found hmem
    cases hc with
    | settable => rfl
    | stock | table | lookup | const => simp at hk
    | computed => simp at hd
  have hrule : (⟨n, .default n⟩ : Rule Float) ∈ m.equations.flows :=
    h.mem_flows.mpr ⟨c, hmem, hflow⟩
  exact List.any_eq_true.mpr ⟨_, hrule, by simp [Formula.readsDefault]⟩

/-! ## Simulations -/

namespace Sim

/-- Two simulations in the same state, with the same values for all names and the same report. -/
structure SameState (s s' : Sim α) : Prop where
  step : s'.step = s.step
  time : s'.time = s.time
  phase : s'.phase = s.phase
  value : ∀ n, s'.value n = s.value n
  report : s'.report = s.report

variable {E : String → Prop} {s s' : Sim α} {b b' : Board α} {c : String} {v : α}

theorem SameOutside.sameState (h : SameOutside (fun _ => False) E s b s' b') : s.SameState s' where
  step := h.step
  time := h.time
  phase := h.phase
  value _ := h.value not_false
  report := h.report_eq

/-- Before anything is computed, setting a variable only writes on the board. -/
theorem setValue_of_fresh (hp : s.phase = .fresh) (hb : b.remaining = none)
    (hdecl : s.model.declares c = true) (hover : s.model.isOverridable c = true) :
    s.setValue c v b = ⟨s, b.pin s.id c v, none⟩ := by
  unfold setValue
  simp only [hdecl, hover, hp, Board.set_of_running hb, Bool.not_true, Bool.false_eq_true,
    ↓reduceIte]

/-- What is pinned on the board for a constant is answered as its default would be. -/
theorem lookup_pin_eq_insert {i j : SimId} (hpin : ∀ n, b.pinned? i n = none)
    (hpin' : ∀ n, b'.pinned? j n = none) (defaults : Values α) (c : String) (v : α) (n : String) :
    b'.lookup j (defaults.insert c v) n = (b.pin i c v).lookup i defaults n := by
  rw [Board.lookup_pin]
  unfold Board.lookup
  rw [hpin, hpin']
  show (defaults.insert c v)[n]? = if i = i ∧ c = n then some v else defaults[n]?
  rw [getElem?_insert_values]
  simp only [true_and]

end Sim

namespace Project

open Sim

variable {text : String} {p : Project} {i j : SimId} {name label : String}
  {spec : Timespec Float} {s : Sim Float} {b b' : Board Float} {x : Variable Float}

/-- **Setting a constant first comes to the same as writing it into the model.** A constant that no
other starting value is taken from can be set before the first run, and from then on the simulation
and one of the model with that constant are answered the same in all runs and settings: in every
state they have the same time, the same values for all variables and the same report. -/
theorem set_as_written (hp : ofText text = .ok p)
    (hs : p.instantiateWith i name label spec = .ok s) (hb : b.remaining = none)
    (hb' : b'.remaining = none) (hpin : ∀ n, b.pinned? i n = none)
    (hpin' : ∀ n, b'.pinned? j n = none) (hx : x ∈ s.model.vars)
    (hk : x.kind = .aux ∨ x.kind = .flow) (hd : x.default.isSome = true)
    (hreads : ∀ r ∈ s.model.equations.initials, r.name ≠ x.name → x.name ∉ r.formula.reads)
    (v : Float) :
    (s.setValue x.name v b).fault = none ∧ ∀ fuel commands, ServedAlike SameState
      (performAll fuel commands (s.setValue x.name v b).sim (s.setValue x.name v b).board)
      (performAll fuel commands
        (.create j label (s.model.withConstant x.name v) spec spec.saveEvery) b') := by
  obtain ⟨m, hm, _, rfl⟩ := eq_of_instantiateWith hs
  obtain ⟨_, _, _, _, _, _, hcompiled⟩ := compiled_of_runnable hp hm
  obtain ⟨hdecl, hover⟩ := hcompiled.settable_of_constant hx hk hd
  have hmodel := Model.sameOutside_withConstant (mem_ruleNames_of_isOverridable hover) hreads v
  have hsame : SameOutside (fun _ => False) (· = x.name) (.create i label m spec spec.saveEvery)
      (b.pin i x.name v) (.create j label (m.withConstant x.name v) spec spec.saveEvery) b' := by
    refine ⟨rfl, hmodel, rfl, rfl, rfl, rfl, fun _ _ => rfl, rfl, ?_, .nil, fun n _ => ?_⟩
    · exact m.recorded_withConstant x.name v
    · exact lookup_pin_eq_insert hpin hpin' m.defaults x.name v n
  have habreast : Abreast (SameOutside (fun _ => False) (· = x.name)) _ _ _ _ :=
    ⟨hsame, hb, hb', sound_create hcompiled.sound ..,
      sound_create (hcompiled.sound.withConstant ..) ..,
      Or.inl (fresh_create ..), Or.inl (fresh_create ..)⟩
  rw [setValue_of_fresh rfl hb hdecl hover]
  exact ⟨rfl, fun fuel commands => kept_sameOutside.performAll keptBySet_sameOutside
    SameOutside.sameState habreast fuel commands⟩

/-! ## A rate that is set first -/

/-- A simulation of the level that grows, and its rate, which no other starting value is taken
from. -/
def rateSim : Option (Project × Sim Float × Variable Float) := do
  let (p, s) ← growthSim oneStep
  let x ← s.model.vars.find? fun x => x.name = "rate"
  if (x.kind = .aux ∨ x.kind = .flow) ∧ x.default.isSome ∧
      ∀ r ∈ s.model.equations.initials, r.name ≠ x.name → x.name ∉ r.formula.vars then
    return (p, s, x)
  else none

theorem set_as_written_growth : ∃ p s x, ofText growth = .ok p ∧
    p.instantiateWith 0 "main" "main" oneStep = .ok s ∧ x ∈ s.model.vars ∧ x.name = "rate" ∧
    (s.setValue x.name 5 .empty).fault = none ∧ ServedAlike SameState
      (performAll 5 [.run 0, .set "rate" 7, .run 1] (s.setValue x.name 5 .empty).sim
        (s.setValue x.name 5 .empty).board)
      (performAll 5 [.run 0, .set "rate" 7, .run 1]
        (.create 0 "main" (s.model.withConstant x.name 5) oneStep oneStep.saveEvery) .empty) := by
  have hsome : rateSim.isSome = true := by decide +kernel
  obtain ⟨found, hfound⟩ := Option.isSome_iff_exists.mp hsome
  obtain ⟨⟨p, s⟩, hsim, hfound⟩ := Option.bind_eq_some_iff.mp hfound
  obtain ⟨x, hfind, hfound⟩ := Option.bind_eq_some_iff.mp hfound
  obtain ⟨⟨hk, hd, hreads⟩, _⟩ := Option.ite_none_right_eq_some.mp hfound
  obtain ⟨hp, hs⟩ := of_trial hsim
  have hx := List.mem_of_find?_eq_some hfind
  have hname : x.name = "rate" := by simpa using List.find?_some hfind
  have hreads' : ∀ r ∈ s.model.equations.initials, r.name ≠ x.name → x.name ∉ r.formula.reads :=
    fun r hr hne hmem => hreads r hr hne (Formula.mem_reads.mp hmem)
  have hbare : (Board.empty : Board Float).remaining = none := rfl
  have hpin : ∀ n, (Board.empty : Board Float).pinned? 0 n = none := fun _ => rfl
  obtain ⟨hok, hsame⟩ := set_as_written hp hs hbare hbare hpin hpin hx hk hd hreads' 5
  exact ⟨p, s, x, hp, hs, hx, hname, hok, hsame 5 [.run 0, .set "rate" 7, .run 1]⟩

end Project

end StockFlow
