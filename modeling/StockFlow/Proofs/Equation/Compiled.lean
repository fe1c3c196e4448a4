import StockFlow.Proofs.Engine.Step
import StockFlow.Proofs.Equation.Contribution

/-!
# Models ready to be computed

* `Compiled` — a model together with what each of its statements contributed to it
* `compiled_of_compile` — every model that is made ready to be computed is such a one
* `Compiled.sound` — its rules find all that they read
-/

namespace StockFlow

variable {d : Definition} {names : Names} {found : List (String × Contribution)}
  {m : Model Float}

/-- A model, what is known of its names and what its variables contributed. -/
structure Compiled (d : Definition) (names : Names) (found : List (String × Contribution))
    (m : Model Float) : Prop where
  inOrder : d.NamesInOrder
  contributed : List.Forall₂ (fun s p => p.1 = s.name ∧ ∃ v k, s.value = some v ∧ s.kind = .ok k ∧
    s.Contributes names v k p.2) d.varStmts found
  table_of_isTable : ∀ n, names.isTable n = true →
    ∃ s ∈ d.varStmts, s.name = n ∧ s.kind = .ok .table
  isTable_of_kind : ∀ s ∈ d.varStmts, s.kind = .ok .table → names.isTable s.name = true
  valued : ∀ n ∈ names.valued, ∃ s ∈ d.varStmts, ∃ k, s.name = n ∧ s.kind = .ok k ∧
    s.isValued k = true
  started : ∀ n ∈ names.started, ∃ s ∈ d.varStmts, ∃ k, s.name = n ∧ s.kind = .ok k ∧
    s.isStarted k = true
  flows : orderRules (contributedRules Contribution.flow found) = .ok m.equations.flows
  initials : orderRules (contributedRules Contribution.start found) = .ok m.equations.initials
  stocks : m.equations.stocks = contributedRules Contribution.next found
  tables : m.equations.tables =
    .ofList (found.filterMap fun (name, c) => c.table.map fun t => (name, t))
  defaults : m.defaults = .ofList (found.filterMap fun (name, c) =>
    if c.isSettable then c.constant.map fun x => (name, x) else none)
  vars : m.vars = found.map fun (name, c) => ⟨name, c.kind, c.constant, c.table⟩

/-! ## Making a model ready -/

/-- The statements with their kinds. -/
theorem mem_typed {a : Analysis} (hk : a.definition.kinds = .ok a.kinds)
    (hn : a.definition.NamesInOrder) {s : Stmt} {k : VarKind} :
    (s, k) ∈ a.typed ↔ s ∈ a.definition.varStmts ∧ s.kind = .ok k := by
  have hkinds := Definition.kinds_of? hk hn
  constructor
  · intro h
    obtain ⟨t, ht, he⟩ := List.mem_map.mp h
    obtain ⟨k', hkind, hof⟩ := hkinds t ht
    rw [hof] at he
    cases he
    exact ⟨ht, hkind⟩
  · rintro ⟨hs, hkind⟩
    obtain ⟨k', hkind', hof⟩ := hkinds s hs
    rw [hkind] at hkind'
    cases hkind'
    exact List.mem_map.mpr ⟨s, hs, by rw [hof]; rfl⟩

theorem mem_names_filter {a : Analysis} (hk : a.definition.kinds = .ok a.kinds)
    (hn : a.definition.NamesInOrder) {p : Stmt × VarKind → Bool} {n : String}
    (h : n ∈ (a.typed.filter p).map fun (s, _) => s.name) :
    ∃ s ∈ a.definition.varStmts, ∃ k, s.name = n ∧ s.kind = .ok k ∧ p (s, k) = true := by
  obtain ⟨⟨s, k⟩, hmem, rfl⟩ := List.mem_map.mp h
  obtain ⟨htyped, hp⟩ := List.mem_filter.mp hmem
  obtain ⟨hs, hkind⟩ := (mem_typed hk hn).mp htyped
  exact ⟨s, hs, k, rfl, hkind, hp⟩

/-- **Every model that is made ready to be computed comes from contributions of its statements.** -/
theorem compiled_of_compile {a : Analysis} (ha : d.analyze = .ok a) (hm : a.compile = .ok m)
    (habstract : m.isAbstract = false) : ∃ names found, Compiled d names found m := by
  obtain ⟨rfl, _, hscope, hkinds⟩ := Definition.analyze_eq_ok ha
  obtain ⟨found, hfound, hm⟩ := bind_eq_ok.mp hm
  obtain ⟨flows, hflows, hm⟩ := bind_eq_ok.mp hm
  obtain ⟨initials, hinitials, hm⟩ := bind_eq_ok.mp hm
  cases hm
  obtain ⟨hn, habs⟩ := Definition.namesInOrder_of_scope hscope
  have hgiven : ∀ s ∈ a.definition.varStmts, ∃ v, s.value = some v := by
    -- a model with a variable that has no value is abstract
    intro s hs
    have hall := List.any_eq_false.mp (habs.symm.trans habstract) s hs
    exact Option.ne_none_iff_exists'.mp (by simpa using hall)
  refine ⟨a.names, found, hn, ?_, ?_, ?_,
    fun n hvalued => mem_names_filter hkinds hn hvalued,
    fun n hstarted => mem_names_filter hkinds hn hstarted,
    mapError_eq_ok.mp hflows, mapError_eq_ok.mp hinitials, rfl, rfl, rfl, rfl⟩
  · have hall := List.forall₂_map_left_iff.mp (mapM_eq_ok.mp hfound)
    refine ((List.forall₂_and_left _ _).mpr ⟨fun s hs => hs, hall⟩).imp ?_
    rintro s p ⟨hs, hp⟩
    obtain ⟨v, hv⟩ := hgiven s hs
    obtain ⟨k, hkind, hof⟩ := Definition.kinds_of? hkinds hn s hs
    obtain ⟨c, hc, hp⟩ := bind_eq_ok.mp hp
    cases hp
    simp only [hof, Option.getD_some] at hc
    exact ⟨rfl, v, k, hv, hkind, Stmt.contributes_of_contribution hv hc⟩
  · intro n htable
    obtain ⟨p, hp, rfl, hkind⟩ := exists_of_mem_right (Definition.kinds_eq_ok hkinds)
      (List.mem_reverse.mp (mem_of_lookup_eq_some (of_decide_eq_true htable)))
    exact ⟨p, hp, rfl, hkind⟩
  · intro s hs hkind
    obtain ⟨k, hkind', hof⟩ := Definition.kinds_of? hkinds hn s hs
    rw [hkind] at hkind'
    cases hkind'
    exact decide_eq_true hof

/-! ## What is contributed -/

namespace Compiled

theorem fst_eq (h : Compiled d names found m) : found.map Prod.fst = d.varNames :=
  map_eq_of_forall₂ (h.contributed.imp fun _ _ hp => hp.1)

theorem nodup (h : Compiled d names found m) : (found.map Prod.fst).Nodup := by
  rw [h.fst_eq]
  exact h.inOrder.distinct

theorem mem_found (h : Compiled d names found m) {s : Stmt} (hs : s ∈ d.varStmts) :
    ∃ v k c, s.value = some v ∧ s.kind = .ok k ∧ s.Contributes names v k c ∧
      (s.name, c) ∈ found := by
  obtain ⟨⟨n, c⟩, hmem, rfl, v, k, hv, hkind, hc⟩ := exists_of_mem_left h.contributed hs
  exact ⟨v, k, c, hv, hkind, hc, hmem⟩

theorem of_mem_found (h : Compiled d names found m) {n : String} {c : Contribution}
    (hmem : (n, c) ∈ found) : ∃ s ∈ d.varStmts, ∃ v k, s.name = n ∧ s.value = some v ∧
      s.kind = .ok k ∧ s.Contributes names v k c := by
  obtain ⟨s, hs, hn, v, k, hv, hkind, hc⟩ := exists_of_mem_right h.contributed hmem
  exact ⟨s, hs, v, k, hn.symm, hv, hkind, hc⟩

end Compiled

/-! ## Rules -/

theorem mem_contributedRules {part : Contribution → Option (Formula Float)} {r : Rule Float} :
    r ∈ contributedRules part found ↔ ∃ c, (r.name, c) ∈ found ∧ part c = some r.formula := by
  constructor
  · intro h
    obtain ⟨⟨n, c⟩, hmem, hc⟩ := List.mem_filterMap.mp h
    obtain ⟨f, hf, rfl⟩ := Option.map_eq_some_iff.mp hc
    exact ⟨c, hmem, hf⟩
  · rintro ⟨c, hmem, hc⟩
    exact List.mem_filterMap.mpr ⟨(r.name, c), hmem, by simp [hc]⟩

theorem mem_ruleNames_contributed {part : Contribution → Option (Formula Float)} {n : String} :
    n ∈ ruleNames (contributedRules part found) ↔
      ∃ c, (n, c) ∈ found ∧ (part c).isSome = true := by
  constructor
  · intro h
    obtain ⟨r, hr, rfl⟩ := mem_ruleNames.mp h
    obtain ⟨c, hmem, hc⟩ := mem_contributedRules.mp hr
    exact ⟨c, hmem, by rw [hc]; rfl⟩
  · rintro ⟨c, hmem, hc⟩
    obtain ⟨f, hf⟩ := Option.isSome_iff_exists.mp hc
    exact name_mem_ruleNames (r := ⟨n, f⟩) (mem_contributedRules.mpr ⟨c, hmem, hf⟩)

theorem ruleNames_contributed_sublist (part : Contribution → Option (Formula Float))
    (found : List (String × Contribution)) :
    (ruleNames (contributedRules part found)).Sublist (found.map Prod.fst) := by
  refine map_filterMap_sublist ?_ found
  intro p r hr
  obtain ⟨f, _, rfl⟩ := Option.map_eq_some_iff.mp hr
  rfl

namespace Compiled

theorem nodup_contributed (h : Compiled d names found m)
    (part : Contribution → Option (Formula Float)) :
    (ruleNames (contributedRules part found)).Nodup :=
  h.nodup.sublist (ruleNames_contributed_sublist part found)

theorem flows_inOrder (h : Compiled d names found m) :
    InOrder m.equations.flows ∧
      m.equations.flows.Perm (contributedRules Contribution.flow found) :=
  orderRules_ok (h.nodup_contributed _) h.flows

theorem initials_inOrder (h : Compiled d names found m) :
    InOrder m.equations.initials ∧
      m.equations.initials.Perm (contributedRules Contribution.start found) :=
  orderRules_ok (h.nodup_contributed _) h.initials

theorem mem_flows (h : Compiled d names found m) {r : Rule Float} :
    r ∈ m.equations.flows ↔ ∃ c, (r.name, c) ∈ found ∧ c.flow = some r.formula :=
  h.flows_inOrder.2.mem_iff.trans mem_contributedRules

theorem mem_initials (h : Compiled d names found m) {r : Rule Float} :
    r ∈ m.equations.initials ↔ ∃ c, (r.name, c) ∈ found ∧ c.start = some r.formula :=
  h.initials_inOrder.2.mem_iff.trans mem_contributedRules

theorem mem_stocks (h : Compiled d names found m) {r : Rule Float} :
    r ∈ m.equations.stocks ↔ ∃ c, (r.name, c) ∈ found ∧ c.next = some r.formula := by
  rw [h.stocks]
  exact mem_contributedRules

theorem mem_flowNames (h : Compiled d names found m) {n : String} :
    n ∈ ruleNames m.equations.flows ↔ ∃ c, (n, c) ∈ found ∧ c.flow.isSome = true :=
  ((h.flows_inOrder.2.map Rule.name).mem_iff).trans mem_ruleNames_contributed

theorem mem_initialNames (h : Compiled d names found m) {n : String} :
    n ∈ ruleNames m.equations.initials ↔ ∃ c, (n, c) ∈ found ∧ c.start.isSome = true :=
  ((h.initials_inOrder.2.map Rule.name).mem_iff).trans mem_ruleNames_contributed

theorem mem_stockNames (h : Compiled d names found m) {n : String} :
    n ∈ ruleNames m.equations.stocks ↔ ∃ c, (n, c) ∈ found ∧ c.next.isSome = true := by
  rw [h.stocks]
  exact mem_ruleNames_contributed

/-! ## The rules find all that they read -/

/-- **What is known to have a value is a name of a state.** -/
theorem mem_stateNames (h : Compiled d names found m) {n : String} (hn : n ∈ d.varNames)
    (hbare : names.isBareTable n = false) : n ∈ m.stateNames := by
  obtain ⟨s, hs, rfl⟩ := List.mem_map.mp hn
  obtain ⟨v, k, c, hv, hkind, hc, hmem⟩ := h.mem_found hs
  refine List.mem_cons_of_mem _ (List.mem_append.mpr ?_)
  rw [h.mem_stockNames, h.mem_flowNames]
  by_cases hk : k = .table
  · -- a table has a value if it is looked up where it is given, and others may not be read
    subst hk
    have hvalued : s.name ∈ names.valued := by
      simpa [Names.isBareTable, h.isTable_of_kind s hs hkind] using hbare
    obtain ⟨t, ht, k', hname, hkind', hisValued⟩ := h.valued _ hvalued
    have hst := List.inj_on_of_nodup_map h.inOrder.distinct ht hs hname
    subst hst
    simp only [Stmt.isValued, hv, Bool.and_eq_true] at hisValued
    cases hc with
    | table hindex _ _ => rw [hindex] at hisValued; simp at hisValued
    | lookup _ _ _ _ => exact Or.inr ⟨_, hmem, rfl⟩
    | settable hk | computed hk => simp at hk
  · exact (hc.hasRule hk).imp (fun hs => ⟨c, hmem, hs⟩) fun hs => ⟨c, hmem, hs⟩

/-- What an expression of a variable may read is a name of a state. -/
theorem mem_stateNames_of_mayRead (h : Compiled d names found m) {s : Stmt} {v : Expr}
    (hs : s ∈ d.varStmts) (hv : s.value = some v) {n : String}
    (hn : Expr.MayRead names v.references n) : n ∈ m.stateNames := by
  obtain ⟨hmem, hdt, htime | hbare⟩ := hn
  · rw [htime]
    exact List.mem_cons_self ..
  · obtain ⟨r, hr, rfl⟩ := List.mem_map.mp hmem
    have hrefs : r ∈ s.references := by
      rw [Stmt.references, hv]
      exact List.mem_append_right _ (by simpa using hr)
    rcases h.inOrder.known s hs r hrefs with hvar | himplicit
    · exact h.mem_stateNames hvar hbare
    · simp only [implicitNames, List.mem_cons, List.not_mem_nil, or_false] at himplicit
      rcases himplicit with htime | hdt'
      · rw [htime]
        exact List.mem_cons_self ..
      · exact absurd hdt' hdt

theorem getElem?_tables (h : Compiled d names found m) {n : String} {c : Contribution}
    {t : Table Float} (hmem : (n, c) ∈ found) (ht : c.table = some t) :
    m.equations.tables[n]? = some t := by
  rw [h.tables]
  refine getElem?_ofList_of_mem (h.nodup.sublist (map_filterMap_sublist ?_ found))
    (List.mem_filterMap.mpr ⟨(n, c), hmem, by simp [ht]⟩)
  intro p q hq
  obtain ⟨t', _, rfl⟩ := Option.map_eq_some_iff.mp hq
  rfl

theorem getElem?_defaults (h : Compiled d names found m) {n : String} {c : Contribution}
    {x : Float} (hmem : (n, c) ∈ found) (hset : c.isSettable = true) (hx : c.constant = some x) :
    m.defaults[n]? = some x := by
  rw [h.defaults]
  refine getElem?_ofList_of_mem (h.nodup.sublist (map_filterMap_sublist ?_ found))
    (List.mem_filterMap.mpr ⟨(n, c), hmem, by simp [hset, hx]⟩)
  rintro ⟨n', c'⟩ q hq
  simp only [Option.ite_none_right_eq_some] at hq
  obtain ⟨x', _, rfl⟩ := Option.map_eq_some_iff.mp hq.2
  rfl

theorem table?_eq (h : Compiled d names found m) {s : Stmt} {v : Expr} (hs : s ∈ d.varStmts)
    (hv : s.value = some v) : d.table? s.name = v.givenTable? := by
  rw [Definition.table?, find?_eq_of_nodup_map h.inOrder.distinct hs, Option.bind_some, hv,
    Option.bind_some]

/-- **A name of a table stands for the table that its variable gives.** -/
theorem exists_table (h : Compiled d names found m) {n : String} (hn : names.isTable n = true) :
    ∃ t, m.equations.tables[n]? = some t ∧ d.table? n = some t := by
  obtain ⟨s, hs, rfl, hkind⟩ := h.table_of_isTable n hn
  obtain ⟨v, k, c, hv, hkind', hc, hmem⟩ := h.mem_found hs
  rw [hkind] at hkind'
  cases hkind'
  rw [h.table?_eq hs hv]
  cases hc with
  | table _ htable _ => exact ⟨_, h.getElem?_tables hmem rfl, htable⟩
  | lookup _ htable _ _ => exact ⟨_, h.getElem?_tables hmem rfl, htable⟩
  | settable hk | computed hk => simp at hk

/-- **What a rule of a step reads:** names of a state and tables. It asks for no default, or it is
nothing but the default of its own variable. -/
theorem flow_reads (h : Compiled d names found m) {r : Rule Float} (hr : r ∈ m.equations.flows) :
    r.formula.vars ⊆ m.stateNames ∧ (∀ n ∈ r.formula.tables, names.isTable n = true) ∧
      (r.formula.asked ≠ [] → r.formula = .default r.name ∧ (m.defaults[r.name]?).isSome = true ∧
        ∃ c, (r.name, c) ∈ found ∧ c.kind ≠ .table) := by
  obtain ⟨rname, formula⟩ := r
  obtain ⟨c, hmem, hflow⟩ := h.mem_flows.mp hr
  obtain ⟨s, hs, v, k, hname, hv, hkind, hc⟩ := h.of_mem_found hmem
  cases hc with
  | stock | table => cases hflow
  | lookup _ _ hadm _ =>
    cases hflow
    refine ⟨fun n hn => h.mem_stateNames_of_mayRead hs hv (hadm.vars n hn), ?_,
      fun hasks => absurd hadm.asked hasks⟩
    intro n hn
    rcases List.mem_cons.mp hn with rfl | hn
    · exact h.isTable_of_kind s hs hkind
    · exact hadm.tables n hn
  | const => cases hflow; exact ⟨nofun, nofun, fun hasks => absurd rfl hasks⟩
  | settable hk =>
    cases hflow
    have hkind' : k ≠ .table := by rcases hk with rfl | rfl <;> exact nofun
    refine ⟨nofun, nofun, fun _ => ⟨by rw [hname], ?_, _, hmem, hkind'⟩⟩
    rw [h.getElem?_defaults hmem rfl rfl, Option.isSome_some]
  | computed _ _ hf =>
    cases hflow
    exact ⟨fun n hn => h.mem_stateNames_of_mayRead hs hv (hf.admissible.vars n hn),
      hf.admissible.tables, fun hasks => absurd hf.admissible.asked hasks⟩

theorem stock_reads (h : Compiled d names found m) {r : Rule Float} (hr : r ∈ m.equations.stocks) :
    r.formula.vars ⊆ m.stateNames ∧ (∀ n ∈ r.formula.tables, names.isTable n = true) ∧
      r.formula.asked = [] := by
  obtain ⟨rname, formula⟩ := r
  have hself : rname ∈ m.stateNames :=
    List.mem_cons_of_mem _ (List.mem_append_left _ (name_mem_ruleNames hr))
  obtain ⟨c, hmem, hnext⟩ := h.mem_stocks.mp hr
  obtain ⟨s, hs, v, k, hname, hv, hkind, hc⟩ := h.of_mem_found hmem
  cases hc with
  | stock _ _ hnet _ =>
    cases hnext
    refine ⟨?_, ?_, ?_⟩
    · intro n hn
      simp only [Formula.vars, List.append_nil, List.mem_append, List.mem_singleton] at hn
      rcases hn with rfl | hn
      · rwa [hname]
      · exact h.mem_stateNames_of_mayRead hs hv (hnet.vars n hn)
    · intro n hn
      simp only [Formula.tables, List.append_nil, List.nil_append] at hn
      exact hnet.tables n hn
    · rw [Formula.asked, Formula.asked, Formula.asked, hnet.asked]
      rfl
  | table | lookup | const | settable | computed => cases hnext

/-- What a starting value reads: the time, or other starting values. -/
theorem initial_reads (h : Compiled d names found m) {r : Rule Float}
    (hr : r ∈ m.equations.initials) :
    (∀ n ∈ r.formula.vars, n = timeName ∨ n ∈ ruleNames m.equations.initials) ∧
      r.formula.asked = [] ∧ r.formula.tables = [] := by
  obtain ⟨rname, formula⟩ := r
  obtain ⟨c, hmem, hstart⟩ := h.mem_initials.mp hr
  obtain ⟨s, hs, v, k, hname, hv, hkind, hc⟩ := h.of_mem_found hmem
  obtain ⟨o, _, rfl, hnames⟩ := hc.origin?_of_start hstart
  cases o with
  | value | step => exact ⟨nofun, rfl, rfl⟩
  | sameAs n =>
    refine ⟨?_, rfl, rfl⟩
    intro n' hn'
    rw [List.mem_singleton.mp hn', h.mem_initialNames]
    refine (hnames n rfl).imp_right ?_
    intro hstarted
    obtain ⟨t, ht, k', rfl, hkind', hisStarted⟩ := h.started _ hstarted
    obtain ⟨v', k'', c', hv', hkind'', hc', hmem'⟩ := h.mem_found ht
    rw [hkind'] at hkind''
    cases hkind''
    exact ⟨c', hmem', hc'.isSome_start hv' hisStarted⟩

theorem time_not_mem (h : Compiled d names found m) {n : String} {c : Contribution}
    (hmem : (n, c) ∈ found) : n ≠ timeName := by
  obtain ⟨s, hs, _, _, hname, _⟩ := h.of_mem_found hmem
  intro he
  refine h.inOrder.explicit s hs ?_
  rw [hname, he]
  decide

theorem eq_of_mem (h : Compiled d names found m) {n : String} {c c' : Contribution}
    (hc : (n, c) ∈ found) (hc' : (n, c') ∈ found) : c = c' :=
  congrArg Prod.snd (List.inj_on_of_nodup_map h.nodup hc hc' rfl)

theorem distinct (h : Compiled d names found m) : m.stateNames.Nodup := by
  have hflows := h.flows_inOrder.1.nodup
  have hstocks : (ruleNames m.equations.stocks).Nodup := by
    rw [h.stocks]
    exact h.nodup_contributed _
  refine List.nodup_cons.mpr ⟨?_, List.nodup_append.mpr ⟨hstocks, hflows, ?_⟩⟩
  · intro htime
    rcases List.mem_append.mp htime with hmem | hmem
    · obtain ⟨c, hc, _⟩ := h.mem_stockNames.mp hmem
      exact h.time_not_mem hc rfl
    · obtain ⟨c, hc, _⟩ := h.mem_flowNames.mp hmem
      exact h.time_not_mem hc rfl
  · rintro n hstock _ hflow rfl
    obtain ⟨c, hc, hnext⟩ := h.mem_stockNames.mp hstock
    obtain ⟨c', hc', hflow⟩ := h.mem_flowNames.mp hflow
    cases h.eq_of_mem hc hc'
    obtain ⟨s, _, v, k, _, _, _, hcontr⟩ := h.of_mem_found hc
    rw [(hcontr.start_of_next hnext).2] at hflow
    cases hflow

/-- The names that are recorded are those of all variables but tables. -/
theorem mem_recorded (h : Compiled d names found m) {n : String} :
    n ∈ m.recorded ↔ ∃ c, (n, c) ∈ found ∧ c.kind ≠ .table := by
  unfold Model.recorded
  rw [h.vars]
  constructor
  · intro hn
    obtain ⟨var, hvar, rfl⟩ := List.mem_map.mp hn
    obtain ⟨hmem, hrec⟩ := List.mem_filter.mp hvar
    obtain ⟨⟨n, c⟩, hfound, rfl⟩ := List.mem_map.mp hmem
    exact ⟨c, hfound, of_decide_eq_true hrec⟩
  · rintro ⟨c, hc, hk⟩
    refine List.mem_map.mpr ⟨⟨n, c.kind, c.constant, c.table⟩, List.mem_filter.mpr ⟨?_, ?_⟩, rfl⟩
    · exact List.mem_map.mpr ⟨(n, c), hc, rfl⟩
    · exact decide_eq_true hk

/-- **The rules of a model that is made ready find all that they read.** -/
theorem sound (h : Compiled d names found m) : m.Sound where
  initials := h.initials_inOrder.1
  flows := h.flows_inOrder.1
  distinct := h.distinct
  initials_names := by
    intro n hn
    obtain ⟨c, hc, hstart⟩ := h.mem_initialNames.mp hn
    obtain ⟨s, _, v, k, _, _, _, hcontr⟩ := h.of_mem_found hc
    rw [List.mem_append, h.mem_stockNames, h.mem_flowNames]
    exact (hcontr.hasRule_of_start hstart).imp (fun hs => ⟨c, hc, hs⟩) fun hs => ⟨c, hc, hs⟩
  started := by
    intro n hn
    obtain ⟨c, hc, hnext⟩ := h.mem_stockNames.mp hn
    obtain ⟨s, _, v, k, _, _, _, hcontr⟩ := h.of_mem_found hc
    exact h.mem_initialNames.mpr ⟨c, hc, (hcontr.start_of_next hnext).1⟩
  initials_vars r hr := (h.initial_reads hr).1
  initials_asked r hr := (h.initial_reads hr).2.1
  initials_tables r hr := (h.initial_reads hr).2.2
  vars r hr := (List.mem_append.mp hr).elim (fun hr => (h.stock_reads hr).1)
    fun hr => (h.flow_reads hr).1
  tables := by
    intro r hr n hn
    have htable : names.isTable n = true := (List.mem_append.mp hr).elim
      (fun hr => (h.stock_reads hr).2.1 n hn) fun hr => (h.flow_reads hr).2.1 n hn
    obtain ⟨t, ht, _⟩ := h.exists_table htable
    rw [ht, Option.isSome_some]
  stocks_asked r hr := (h.stock_reads hr).2.2
  flows_asked := by
    intro r hr hasks
    obtain ⟨hform, hdef, hrec⟩ := (h.flow_reads hr).2.2 hasks
    exact ⟨hform, hdef, h.mem_recorded.mpr hrec⟩
  recorded := by
    intro n hn
    obtain ⟨c, hc, hk⟩ := h.mem_recorded.mp hn
    obtain ⟨s, hs, v, k, hname, hv, hkind, hcontr⟩ := h.of_mem_found hc
    refine List.mem_cons_of_mem _ (List.mem_append.mpr ?_)
    rw [h.mem_stockNames, h.mem_flowNames]
    have hk' : k ≠ .table := by
      rintro rfl
      cases hcontr <;> simp at hk
    exact (hcontr.hasRule hk').imp (fun hs => ⟨c, hc, hs⟩) fun hs => ⟨c, hc, hs⟩

end Compiled

end StockFlow
