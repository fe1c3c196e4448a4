import StockFlow.Proofs.Equation.Share
import StockFlow.Proofs.Model.References
import StockFlow.Proofs.Project

/-!
# What names are resolved to

* `Definition.Closed` — a model whose statements only mention its variables, the time and the step
* `Definition.scope_isOk_iff` — exactly these models have a scope
* `Stmt.Yields.of_mem_vars` — what the rules of a variable read
* `Definition.scope_exact` — the scope of a model holds its variables, and rules read nothing else
-/

namespace StockFlow

/-! ## Rules and the names they read -/

theorem Stmt.references_subset_of_value {s : Stmt} {v : Expr} (hv : s.value = some v) :
    v.references ⊆ s.references := by
  rw [references, hv]
  exact List.Subset.trans (by simp) (List.subset_append_right _ _)

/-- **A rule of a variable reads** the variable itself, the time, variables with a starting value,
or names that its statement mentions, but not the step. -/
theorem Stmt.Yields.of_mem_vars {names : Names} {s : Stmt} {k : VarKind} {c : Contribution}
    (h : s.Yields names k c) {f : Formula Float}
    (hf : c.start = some f ∨ c.flow = some f ∨ c.next = some f) {n : String} (hn : n ∈ f.vars) :
    n = s.name ∨ n = "time" ∨ n ∈ names.started ∨ s.Mentions n ∧ n ≠ "dt" := by
  have hmay : ∀ {v : Expr} {f : Formula Float}, s.value = some v →
      Expr.Admissible names v.references f → n ∈ f.vars → s.Mentions n ∧ n ≠ "dt" := by
    intro v f hv hadm hn
    obtain ⟨hmem, hdt, _⟩ := (hadm.vars n hn).mono (references_subset_of_value hv)
    exact ⟨s.mentions_iff.mpr hmem, hdt⟩
  cases h with
  | bare =>
    simp only [Option.some.injEq, reduceCtorEq, or_false, or_self] at hf
    subst hf
    cases hn
  | given hv h =>
    cases h with
    | @stock o net _ hnames hnet _ =>
      simp only [Option.some.injEq, reduceCtorEq, false_or] at hf
      rcases hf with rfl | rfl
      · cases o with
        | value | step => cases hn
        | sameAs m =>
          obtain rfl := List.mem_singleton.mp hn
          exact (hnames n rfl).elim (fun h => .inr (.inl h)) fun h => .inr (.inr (.inl h))
      · have hn : n = s.name ∨ n ∈ net.vars := by
          simpa [StockBody.nextFormula, Formula.vars] using hn
        exact hn.imp_right fun hn => .inr (.inr (hmay hv hnet hn))
    | table => simp only [reduceCtorEq, or_self] at hf
    | lookup _ _ hadm _ =>
      simp only [Option.some.injEq, reduceCtorEq, false_or, or_false] at hf
      subst hf
      exact .inr (.inr (.inr (hmay hv hadm hn)))
    | const =>
      simp only [Option.some.injEq, reduceCtorEq, or_false, or_self] at hf
      subst hf
      cases hn
    | settable =>
      simp only [Option.some.injEq, reduceCtorEq, or_false] at hf
      rcases hf with rfl | rfl <;> cases hn
    | computed _ _ hlower =>
      simp only [Option.some.injEq, reduceCtorEq, false_or, or_false] at hf
      subst hf
      exact .inr (.inr (.inr (hmay hv hlower.admissible hn)))

theorem Analysis.started_subset (a : Analysis) : a.names.started ⊆ a.definition.varNames := by
  intro n hn
  obtain ⟨⟨s, k⟩, hs, rfl⟩ := List.mem_map.mp hn
  obtain ⟨s', hs', he⟩ := List.mem_map.mp (List.mem_filter.mp hs).1
  cases he
  exact Definition.name_mem_varNames hs'

/-- Every rule of a model whose names are distinct is contributed by one of its variables. -/
theorem Analysis.exists_yields {a : Analysis} {m : Model Float} (hm : a.compile = .ok m)
    (hnd : a.definition.varNames.Nodup) {r : Rule Float}
    (hr : r ∈ m.equations.initials ++ m.equations.flows ++ m.equations.stocks) :
    ∃ s ∈ a.definition.varStmts, ∃ k c, s.Yields a.names k c ∧
      (c.start = some r.formula ∨ c.flow = some r.formula ∨ c.next = some r.formula) := by
  obtain ⟨found, hfound, hm⟩ := bind_eq_ok.mp hm
  obtain ⟨flows, hflows, hm⟩ := bind_eq_ok.mp hm
  obtain ⟨initials, hinitials, hm⟩ := bind_eq_ok.mp hm
  cases hm
  have hyields := yields_of_contributions hfound
  have hrules : ∀ part, (ruleNames (contributedRules part found)).Nodup := by
    intro part
    refine List.Nodup.sublist (ruleNames_contributed_sublist part found) ?_
    rw [map_eq_of_forall₂ (hyields.imp fun _ _ hp => hp.1)]
    exact hnd
  have hof : ∀ part, r ∈ contributedRules part found →
      ∃ s ∈ a.definition.varStmts, ∃ k c, s.Yields a.names k c ∧ part c = some r.formula := by
    intro part hr
    obtain ⟨c, hc, hpart⟩ := mem_contributedRules.mp hr
    obtain ⟨s, hs, _, hyield⟩ := exists_of_mem_right hyields hc
    exact ⟨s, hs, _, c, hyield, hpart⟩
  rw [List.mem_append, List.mem_append] at hr
  rcases hr with (hr | hr) | hr
  · have hperm := (orderRules_ok (hrules _) (mapError_eq_ok.mp hinitials)).2
    obtain ⟨s, hs, k, c, hyield, hpart⟩ := hof _ (hperm.mem_iff.mp hr)
    exact ⟨s, hs, k, c, hyield, .inl hpart⟩
  · have hperm := (orderRules_ok (hrules _) (mapError_eq_ok.mp hflows)).2
    obtain ⟨s, hs, k, c, hyield, hpart⟩ := hof _ (hperm.mem_iff.mp hr)
    exact ⟨s, hs, k, c, hyield, .inr (.inl hpart)⟩
  · obtain ⟨s, hs, k, c, hyield, hpart⟩ := hof _ hr
    exact ⟨s, hs, k, c, hyield, .inr (.inr hpart)⟩

/-! ## Scopes -/

namespace Definition

variable {d : Definition}

/-- **A model whose names are resolved within it:** its variables are distinct, none is called as
the time or the step, and its statements mention no other name, however deep. -/
structure Closed (d : Definition) : Prop where
  distinct : d.varNames.Nodup
  explicit : "time" ∉ d.varNames ∧ "dt" ∉ d.varNames
  known : ∀ s ∈ d.varStmts, ∀ n, s.Mentions n → n ∈ d.varNames ∨ n = "time" ∨ n = "dt"

theorem mem_implicitNames {n : String} : n ∈ implicitNames ↔ n = "time" ∨ n = "dt" := by
  simp [implicitNames]

theorem closed_iff_namesInOrder : d.Closed ↔ d.NamesInOrder := by
  constructor
  · intro h
    refine ⟨h.distinct, fun s hs himplicit => ?_, fun s hs r hr => ?_⟩
    · rcases mem_implicitNames.mp himplicit with htime | hdt
      · exact h.explicit.1 (htime ▸ name_mem_varNames hs)
      · exact h.explicit.2 (hdt ▸ name_mem_varNames hs)
    · rw [mem_implicitNames]
      exact h.known s hs r.1 (s.mentions_iff.mpr (List.mem_map_of_mem hr))
  · intro h
    have hnot : ∀ n ∈ implicitNames, n ∉ d.varNames := by
      intro n hn hmem
      obtain ⟨s, hs, rfl⟩ := List.mem_map.mp hmem
      exact h.explicit s hs hn
    refine ⟨h.distinct, ⟨hnot _ (by decide), hnot _ (by decide)⟩, fun s hs n hn => ?_⟩
    obtain ⟨r, hr, rfl⟩ := List.mem_map.mp (s.mentions_iff.mp hn)
    rw [← mem_implicitNames]
    exact h.known s hs r hr

/-- **Exactly the models whose names are resolved within them have a scope.** -/
theorem scope_isOk_iff : (∃ sc, d.scope = .ok sc) ↔ d.Closed := by
  rw [closed_iff_namesInOrder]
  exact ⟨fun ⟨sc, h⟩ => (namesInOrder_of_scope h).1, scope_of_namesInOrder⟩

theorem vars_of_scope {sc : Scope} (h : d.scope = .ok sc) :
    sc.vars = d.varStmts.map Stmt.decl := by
  rw [scope_eq] at h
  obtain ⟨vars, hvars, h⟩ := bind_eq_ok.mp h
  obtain ⟨_, _, h⟩ := bind_eq_ok.mp h
  rw [← Except.ok.inj h, (declare_eq_ok hvars).1]
  rfl

theorem isSome_find?_iff {sc : Scope} (h : d.scope = .ok sc) {n : String} :
    (sc.find? n).isSome = true ↔ n ∈ d.varNames := by
  rw [Scope.find?, vars_of_scope h, isSome_find?_decl_iff]

/-- What a rule of a closed model reads is a variable or the time. -/
theorem Closed.mem_reads {a : Analysis} {m : Model Float} (h : a.definition.Closed)
    (hm : a.compile = .ok m) {r : Rule Float}
    (hr : r ∈ m.equations.initials ++ m.equations.flows ++ m.equations.stocks) {n : String}
    (hn : n ∈ r.formula.reads) : n ∈ a.definition.varNames ∨ n = "time" := by
  obtain ⟨s, hs, k, c, hyield, hpart⟩ := a.exists_yields hm h.distinct hr
  rcases hyield.of_mem_vars hpart (Formula.mem_reads.mp hn) with
    rfl | htime | hstarted | ⟨hmention, hdt⟩
  · exact .inl (name_mem_varNames hs)
  · exact .inr htime
  · exact .inl (a.started_subset hstarted)
  · exact (h.known s hs n hmention).imp_right fun h => h.resolve_right hdt

/-- **The scope of a model is exact.** The walk of its statements gives a model a scope exactly if
its names are resolved within it; the scope then holds its variables and tells whether one of them
is not given, and when the model is made ready to be computed, whatever kinds its variables have,
its rules read only them and the time. -/
theorem scope_exact (d : Definition) : ((∃ sc, d.scope = .ok sc) ↔ d.Closed) ∧
    ∀ sc, d.scope = .ok sc →
      sc.vars = d.varStmts.map Stmt.decl ∧
      (∀ n, (sc.find? n).isSome = true ↔ n ∈ d.varNames) ∧
      (sc.isAbstract = true ↔ ∃ s ∈ d.varStmts, s.value = none) ∧
      ∀ (a : Analysis) (m : Model Float), a.definition = d → a.compile = .ok m →
        ∀ r ∈ m.equations.initials ++ m.equations.flows ++ m.equations.stocks,
          ∀ n ∈ r.formula.reads, n ∈ d.varNames ∨ n = "time" := by
  refine ⟨scope_isOk_iff, fun sc h => ?_⟩
  refine ⟨vars_of_scope h, fun n => isSome_find?_iff h, ?_, ?_⟩
  · rw [(namesInOrder_of_scope h).2, List.any_eq_true]
    simp only [Option.isNone_iff_eq_none]
  · rintro a m rfl hm r hr n hn
    exact (scope_isOk_iff.mp ⟨sc, h⟩).mem_reads hm hr hn

end Definition

/-- A herd whose rate of growth is not given. -/
def ungiven : String :=
  "model main \x7b herd = \x7binitial: size, inflow: herd * rate + sin(time)\x7d; " ++
    "size = 10; rate; \x7d"

/-- Its only definition with its scope, made ready to be computed. -/
def ungivenRuns : Option (Definition × Scope × Analysis × Model Float) := do
  let ds ← (File.parse ungiven).definitions.toOption
  let d ← ds.head?
  let sc ← d.scope.toOption
  let a ← d.analyze.toOption
  let m ← a.compile.toOption
  if sc.isAbstract ∧ d.varNames = ["herd", "size", "rate"] ∧
      ["herd", "herd", "rate", "time"] ∈ m.equations.stocks.map fun r => r.formula.vars then
    return (d, sc, a, m)
  else none

theorem scope_exact_ungiven : ∃ (d : Definition) (sc : Scope) (a : Analysis) (m : Model Float),
    d.scope = .ok sc ∧ d.Closed ∧ (∃ s ∈ d.varStmts, s.value = none) ∧
    (sc.find? "rate").isSome = true ∧ a.definition = d ∧ a.compile = .ok m ∧
    ∃ r ∈ m.equations.stocks, "rate" ∈ r.formula.reads ∧ "time" ∈ r.formula.reads ∧
      ∀ n ∈ r.formula.reads, n ∈ d.varNames ∨ n = "time" := by
  have hsome : ungivenRuns.isSome = true := by decide +kernel
  obtain ⟨runs, hruns⟩ := Option.isSome_iff_exists.mp hsome
  obtain ⟨ds, _, hruns⟩ := Option.bind_eq_some_iff.mp hruns
  obtain ⟨d, _, hruns⟩ := Option.bind_eq_some_iff.mp hruns
  obtain ⟨sc, hsc, hruns⟩ := Option.bind_eq_some_iff.mp hruns
  obtain ⟨a, ha, hruns⟩ := Option.bind_eq_some_iff.mp hruns
  obtain ⟨m, hm, hruns⟩ := Option.bind_eq_some_iff.mp hruns
  obtain ⟨⟨habstract, hnames, hreads⟩, _⟩ := Option.ite_none_right_eq_some.mp hruns
  have hsc := Project.eq_ok_of_toOption hsc
  have hm := Project.eq_ok_of_toOption hm
  have hd := (Definition.analyze_eq_ok (Project.eq_ok_of_toOption ha)).1
  obtain ⟨hiff, hexact⟩ := Definition.scope_exact d
  obtain ⟨_, hfind, habs, hrules⟩ := hexact sc hsc
  obtain ⟨r, hr, he⟩ := List.mem_map.mp hreads
  have hrate : (sc.find? "rate").isSome = true := (hfind "rate").mpr (by rw [hnames]; decide)
  refine ⟨d, sc, a, m, hsc, hiff.mp ⟨sc, hsc⟩, habs.mp habstract, hrate, hd, hm, r, hr, ?_, ?_,
    hrules a m hd hm r (List.mem_append_right _ hr)⟩
  · rw [Formula.mem_reads, he]
    decide
  · rw [Formula.mem_reads, he]
    decide

end StockFlow
