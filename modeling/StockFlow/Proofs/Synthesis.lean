import StockFlow.Proofs.Equation.Share
import StockFlow.Proofs.Project

/-!
# The shares of a model that is made ready

* `Model.Synthesized` — every statement has its share of a model, and nothing else has one
* `synthesized_of_compile` — so it is in every model that is made ready to be computed
-/

namespace StockFlow

/-- **Every statement has its share of a model, and nothing else has one.** -/
structure Model.Synthesized (d : Definition) (m : Model Float) : Prop where
  vars : List.Forall₂ (fun s v => v.name = s.name ∧ s.kind = .ok v.kind ∧
    s.Holds v.kind (m.share s.name)) d.varStmts m.vars
  initials : (ruleNames m.equations.initials).Nodup ∧ ruleNames m.equations.initials ⊆ d.varNames
  flows : (ruleNames m.equations.flows).Nodup ∧ ruleNames m.equations.flows ⊆ d.varNames
  stocks : (ruleNames m.equations.stocks).Nodup ∧ ruleNames m.equations.stocks ⊆ d.varNames
  tables : ∀ n ∈ m.equations.tables, n ∈ d.varNames
  /-- Auxiliaries and flows that are numbers have a default. -/
  defaults : ∀ n, n ∈ m.defaults ↔ ∃ s ∈ d.varStmts, s.name = n ∧
    (s.kind = .ok .aux ∨ s.kind = .ok .flow) ∧ ∃ v, s.value = some v ∧ v.constant?.isSome = true
  /-- A default is asked for only as the whole rule of its own variable. -/
  asked : ∀ r ∈ m.equations.initials ++ m.equations.flows ++ m.equations.stocks, ∀ n,
    r.formula.readsDefault n = true → r = ⟨n, .default n⟩
  overridable : ∀ n, m.isOverridable n = true ↔ (m.share n).flows = [.default n]
  abstract : m.isAbstract = true ↔
    ∃ r ∈ m.equations.initials ++ m.equations.flows ++ m.equations.stocks,
      ∃ n, r.formula.readsDefault n = true ∧ n ∉ m.defaults

/-- **In every model that is made ready to be computed, every statement has its share, and nothing
else has one.** -/
theorem synthesized_of_compile {a : Analysis} (ha : d.analyze = .ok a) (hm : a.compile = .ok m) :
    m.Synthesized d := by
  obtain ⟨names, found, h⟩ := gathered_of_compile ha hm
  refine ⟨?_, h.ruleNames_of_perm h.initials, h.ruleNames_of_perm h.flows,
    h.ruleNames_of_perm h.stocks, ?_, fun _ => h.mem_defaults, fun r hr n hn => h.eq_default hr hn,
    fun _ => h.isOverridable_iff, h.isAbstract_iff⟩
  · rw [h.vars, List.forall₂_map_right_iff]
    have hleft := (List.forall₂_and_left _ _).mpr ⟨fun p (hp : p ∈ found) => hp, h.yielded.flip⟩
    refine hleft.flip.imp ?_
    rintro s ⟨n, c⟩ ⟨hmem, rfl, k, hkind, hy⟩
    show s.name = s.name ∧ s.kind = .ok c.kind ∧ s.Holds c.kind (m.share s.name)
    rw [hy.kind, h.share_eq hmem]
    exact ⟨rfl, hkind, hy.holds⟩
  · intro n hn
    obtain ⟨t, ht⟩ := Option.isSome_iff_exists.mp (Std.TreeMap.mem_iff_isSome_getElem?.mp hn)
    obtain ⟨c, hc, _⟩ := h.getElem?_tables.mp ht
    rw [← h.fst_eq]
    exact List.mem_map_of_mem hc

/-- One variable of each form. -/
def assorted : String :=
  "model main \x7b given; level = \x7binitial: 1, inflow: rate\x7d; three const = 3; " ++
    "rate = 2; twice = rate * 2; curve = [(0, 0), (1, 1)]; seen = [(0, 0), (1, 1)][time]; \x7d"

/-- Its only definition, made ready to be computed. -/
def assortedRuns : Option (Definition × Analysis × Model Float) := do
  let ds ← (File.parse assorted).definitions.toOption
  let d ← ds.head?
  let a ← d.analyze.toOption
  let m ← a.compile.toOption
  if m.isAbstract ∧ m.vars.map Variable.kind = [.aux, .stock, .const, .aux, .aux, .table, .table] ∧
      m.isOverridable "rate" ∧ m.isOverridable "given" then
    return (d, a, m)
  else none

theorem synthesized_of_compile_assorted : ∃ (d : Definition) (a : Analysis) (m : Model Float),
    d.analyze = .ok a ∧ a.compile = .ok m ∧ m.Synthesized d ∧
    m.vars.map Variable.kind = [.aux, .stock, .const, .aux, .aux, .table, .table] ∧
    (m.share "rate").flows = [.default "rate"] ∧ ∃ n, n ∉ m.defaults := by
  have hsome : assortedRuns.isSome = true := by decide +kernel
  obtain ⟨runs, hruns⟩ := Option.isSome_iff_exists.mp hsome
  obtain ⟨ds, _, hruns⟩ := Option.bind_eq_some_iff.mp hruns
  obtain ⟨d, _, hruns⟩ := Option.bind_eq_some_iff.mp hruns
  obtain ⟨a, ha, hruns⟩ := Option.bind_eq_some_iff.mp hruns
  obtain ⟨m, hm, hruns⟩ := Option.bind_eq_some_iff.mp hruns
  obtain ⟨⟨habstract, hkinds, hrate, _⟩, _⟩ := Option.ite_none_right_eq_some.mp hruns
  have ha := Project.eq_ok_of_toOption ha
  have hm := Project.eq_ok_of_toOption hm
  have hmain := synthesized_of_compile ha hm
  obtain ⟨_, _, n, _, hmissing⟩ := hmain.abstract.mp habstract
  exact ⟨d, a, m, ha, hm, hmain, hkinds, (hmain.overridable "rate").mp hrate, n, hmissing⟩

end StockFlow
