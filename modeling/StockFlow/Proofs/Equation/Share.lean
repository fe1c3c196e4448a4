import StockFlow.Proofs.Equation.Compiled

/-!
# The share of a variable in its model

* `Model.share` — all that a model holds of a name
* `Stmt.Holds` — what it holds of the variable of a statement
* `Gathered` — a model, abstract or not, with what each of its statements contributed to it
* `gathered_of_compile` — every model that is made ready to be computed is such a one
* `Gathered.eq_default` — a default is asked for only as the whole rule of its own variable
-/

namespace StockFlow

/-! ## Shares -/

section

variable {α : Type}

/-- The formulas of all rules of a name. -/
def formulasOf (n : String) (rules : List (Rule α)) : List (Formula α) :=
  (rules.filter fun r => r.name = n).map Rule.formula

/-- What a model can hold of a name. -/
structure Share (α : Type) where
  initials : List (Formula α)
  flows : List (Formula α)
  stocks : List (Formula α)
  table : Option (Table α)
  default : Option α

/-- **All that a model holds of a name.** -/
def Model.share (m : Model α) (n : String) : Share α where
  initials := formulasOf n m.equations.initials
  flows := formulasOf n m.equations.flows
  stocks := formulasOf n m.equations.stocks
  table := m.equations.tables[n]?
  default := m.defaults[n]?

theorem mem_formulasOf {n : String} {f : Formula α} {rules : List (Rule α)} :
    f ∈ formulasOf n rules ↔ ⟨n, f⟩ ∈ rules := by
  unfold formulasOf
  constructor
  · intro h
    obtain ⟨r, hr, rfl⟩ := List.mem_map.mp h
    obtain ⟨hr, hn⟩ := List.mem_filter.mp hr
    rwa [← of_decide_eq_true hn]
  · intro h
    exact List.mem_map.mpr ⟨⟨n, f⟩, List.mem_filter.mpr ⟨h, decide_eq_true rfl⟩, rfl⟩

end

/-- **What a model holds of the variable of a statement,** by the form of its value. -/
inductive Stmt.Holds (s : Stmt) : VarKind → Share Float → Prop
  | bare {k : VarKind} (hv : s.value = none) :
    s.Holds k ⟨[.default s.name], [.default s.name], [], none, none⟩
  | stock {v : Expr} {start net : Formula Float} (hv : s.value = some v) :
    s.Holds .stock ⟨[start], [], [StockBody.nextFormula s.name net], none, none⟩
  | const {v : Expr} {x : Float} (hv : s.value = some v) (hx : v.constant? = some x) :
    s.Holds .const ⟨[.const x], [.const x], [], none, none⟩
  | settable {k : VarKind} {v : Expr} {x : Float} (hv : s.value = some v)
    (hk : k = .aux ∨ k = .flow) (hx : v.constant? = some x) :
    s.Holds k ⟨[.const x], [.default s.name], [], none, some x⟩
  | computed {k : VarKind} {v : Expr} {f : Formula Float} (hv : s.value = some v)
    (hk : k = .aux ∨ k = .flow) (hx : v.constant? = none) : s.Holds k ⟨[], [f], [], none, none⟩
  | table {v : Expr} {t : Table Float} (hv : s.value = some v) (hindex : tableIndex? v = none)
    (ht : v.givenTable? = some t) : s.Holds .table ⟨[], [], [], some t, none⟩
  | lookup {v : Expr} {t : Table Float} {index : Formula Float} (hv : s.value = some v)
    (hindex : (tableIndex? v).isSome = true) (ht : v.givenTable? = some t) :
    s.Holds .table ⟨[], [.lookup s.name index], [], some t, none⟩

/-! ## Contributions of all statements -/

/-- The value that a variable has unless it is set from outside. -/
def Contribution.default? (c : Contribution) : Option Float :=
  if c.isSettable then c.constant else none

theorem Contribution.map_default? {β : Type} (c : Contribution) (f : Float → β) :
    c.default?.map f = if c.isSettable then c.constant.map f else none := by
  unfold default?
  split_ifs <;> rfl

/-- What a model holds of a variable that contributes to it. -/
def Contribution.share (c : Contribution) : Share Float :=
  ⟨c.start.toList, c.flow.toList, c.next.toList, c.table, c.default?⟩

/-- What the variable of a statement contributes, whether it has a value or not. -/
inductive Stmt.Yields (names : Names) (s : Stmt) : VarKind → Contribution → Prop
  | bare {k : VarKind} (hv : s.value = none) :
    s.Yields names k { kind := k, start := some (.default s.name), flow := some (.default s.name) }
  | given {k : VarKind} {v : Expr} {c : Contribution} (hv : s.value = some v)
    (h : s.Contributes names v k c) : s.Yields names k c

namespace Stmt.Yields

variable {names : Names} {s : Stmt} {k : VarKind} {c : Contribution}

theorem of_contribution {model : String} (h : s.contribution names model k = .ok c) :
    s.Yields names k c := by
  cases hv : s.value with
  | none =>
    unfold contribution at h
    simp only [hv, Except.ok.injEq] at h
    exact h ▸ .bare hv
  | some v => exact .given hv (contributes_of_contribution hv h)

theorem kind (h : s.Yields names k c) : c.kind = k := by
  cases h with
  | bare => rfl
  | given hv h => cases h <;> rfl

theorem holds (h : s.Yields names k c) : s.Holds k c.share := by
  cases h with
  | bare hv => exact .bare hv
  | given hv h =>
    cases h with
    | stock => exact .stock hv
    | table hindex ht => exact .table hv hindex ht
    | lookup hindex ht => exact .lookup hv hindex ht
    | const hx => exact .const hv hx
    | settable hk hx => exact .settable hv hk hx
    | computed hk hx => exact .computed hv hk hx

/-- A rule asks for no default, or for that of its variable and for nothing else. The variable then
has no value, or it has a default. -/
theorem asked_eq_nil_or {f : Formula Float} (h : s.Yields names k c)
    (hf : c.start = some f ∨ c.flow = some f ∨ c.next = some f) :
    f.asked = [] ∨ f = .default s.name ∧ (s.value = none ∨ c.default?.isSome = true) := by
  cases h with
  | bare hv =>
    simp only [Option.some.injEq, reduceCtorEq, or_false, or_self] at hf
    exact Or.inr ⟨hf.symm, Or.inl hv⟩
  | given hv h =>
    cases h with
    | @stock o net _ _ hnet _ =>
      simp only [Option.some.injEq, reduceCtorEq, false_or] at hf
      rcases hf with rfl | rfl
      · exact Or.inl (by cases o <;> rfl)
      · exact Or.inl (by simp [StockBody.nextFormula, Formula.asked, hnet.asked])
    | table => simp only [reduceCtorEq, or_self] at hf
    | lookup _ _ hadm _ =>
      simp only [Option.some.injEq, reduceCtorEq, false_or, or_false] at hf
      exact Or.inl (hf ▸ hadm.asked)
    | const =>
      simp only [Option.some.injEq, reduceCtorEq, or_false, or_self] at hf
      exact Or.inl (hf ▸ rfl)
    | settable =>
      simp only [Option.some.injEq, reduceCtorEq, or_false] at hf
      rcases hf with rfl | rfl
      · exact Or.inl rfl
      · exact Or.inr ⟨rfl, Or.inr rfl⟩
    | computed _ _ hlower =>
      simp only [Option.some.injEq, reduceCtorEq, false_or, or_false] at hf
      exact Or.inl (hf ▸ hlower.admissible.asked)

/-- **A default is asked for only as the whole rule of its own variable,** which has no value, or
has a default. -/
theorem eq_default {f : Formula Float} {n : String} (h : s.Yields names k c)
    (hf : c.start = some f ∨ c.flow = some f ∨ c.next = some f) (hn : n ∈ f.asked) :
    s.name = n ∧ f = .default n ∧ (s.value = none ∨ c.default?.isSome = true) := by
  rcases h.asked_eq_nil_or hf with hnil | ⟨rfl, hgiven⟩
  · rw [hnil] at hn
    cases hn
  · obtain rfl := List.mem_singleton.mp hn
    exact ⟨rfl, rfl, hgiven⟩

/-- A variable has a default exactly if it is an auxiliary or flow and its value is a number. -/
theorem isSome_default?_iff (h : s.Yields names k c) : c.default?.isSome = true ↔
    (k = .aux ∨ k = .flow) ∧ ∃ v, s.value = some v ∧ v.constant?.isSome = true := by
  cases h with
  | bare hv => exact iff_of_false nofun fun ⟨_, v, hv', _⟩ => by rw [hv] at hv'; cases hv'
  | given hv h =>
    cases h with
    | stock | table | lookup | const =>
      refine iff_of_false nofun fun ⟨hk, _⟩ => ?_
      rcases hk with hk | hk <;> cases hk
    | settable hk hx => exact iff_of_true rfl ⟨hk, _, hv, by rw [hx]; rfl⟩
    | computed _ hx =>
      refine iff_of_false nofun fun ⟨_, v, hv', hsome⟩ => ?_
      cases hv.symm.trans hv'
      rw [hx] at hsome
      cases hsome

end Stmt.Yields

variable {d : Definition} {names : Names} {found : List (String × Contribution)}
  {m : Model Float}

/-- What is contributed to a model, each of its statements yields. -/
theorem Analysis.yields_of_contributions {a : Analysis} (h : a.contributions = .ok found) :
    List.Forall₂ (fun s p => p.1 = s.name ∧
      s.Yields a.names ((a.kinds.of? s.name).getD .aux) p.2) a.definition.varStmts found := by
  refine (List.forall₂_map_left_iff.mp (mapM_eq_ok.mp h)).imp ?_
  intro s p hp
  obtain ⟨c, hc, hp⟩ := bind_eq_ok.mp hp
  cases hp
  exact ⟨rfl, .of_contribution hc⟩

/-- **A model, abstract or not, with what each of its statements contributed to it.** -/
structure Gathered (d : Definition) (names : Names) (found : List (String × Contribution))
    (m : Model Float) : Prop where
  inOrder : d.NamesInOrder
  yielded : List.Forall₂ (fun s p => p.1 = s.name ∧ ∃ k, s.kind = .ok k ∧ s.Yields names k p.2)
    d.varStmts found
  initials : m.equations.initials.Perm (contributedRules Contribution.start found)
  flows : m.equations.flows.Perm (contributedRules Contribution.flow found)
  stocks : m.equations.stocks.Perm (contributedRules Contribution.next found)
  tables : m.equations.tables =
    .ofList (found.filterMap fun (name, c) => c.table.map fun t => (name, t))
  defaults : m.defaults =
    .ofList (found.filterMap fun (name, c) => c.default?.map fun x => (name, x))
  vars : m.vars = found.map fun (name, c) => ⟨name, c.kind, c.constant, c.table⟩
  isAbstract : m.isAbstract = d.varStmts.any fun s => s.value.isNone

/-- **Every model that is made ready to be computed is gathered from its statements.** -/
theorem gathered_of_compile {a : Analysis} (ha : d.analyze = .ok a) (hm : a.compile = .ok m) :
    ∃ names found, Gathered d names found m := by
  obtain ⟨rfl, _, hscope, hkinds⟩ := Definition.analyze_eq_ok ha
  obtain ⟨found, hfound, hm⟩ := bind_eq_ok.mp hm
  obtain ⟨flows, hflows, hm⟩ := bind_eq_ok.mp hm
  obtain ⟨initials, hinitials, hm⟩ := bind_eq_ok.mp hm
  cases hm
  obtain ⟨hn, habs⟩ := Definition.namesInOrder_of_scope hscope
  have hall : List.Forall₂ (fun s p => p.1 = s.name ∧ ∃ k, s.kind = .ok k ∧
      s.Yields a.names k p.2) a.definition.varStmts found := by
    have hyields := Analysis.yields_of_contributions hfound
    refine ((List.forall₂_and_left _ _).mpr ⟨fun s hs => hs, hyields⟩).imp ?_
    rintro s p ⟨hs, hname, hyield⟩
    obtain ⟨k, hkind, hof⟩ := Definition.kinds_of? hkinds hn s hs
    rw [hof] at hyield
    exact ⟨hname, k, hkind, hyield⟩
  have hnd : (found.map Prod.fst).Nodup := by
    rw [map_eq_of_forall₂ (hall.imp fun _ _ hp => hp.1)]
    exact hn.distinct
  have hrules := fun part => hnd.sublist (ruleNames_contributed_sublist part found)
  refine ⟨_, found, hn, hall, (orderRules_ok (hrules _) (mapError_eq_ok.mp hinitials)).2,
    (orderRules_ok (hrules _) (mapError_eq_ok.mp hflows)).2, .refl _, rfl, ?_, rfl, habs⟩
  simp only [Contribution.map_default?]

namespace Gathered

theorem fst_eq (h : Gathered d names found m) : found.map Prod.fst = d.varNames :=
  map_eq_of_forall₂ (h.yielded.imp fun _ _ hp => hp.1)

theorem nodup (h : Gathered d names found m) : (found.map Prod.fst).Nodup := by
  rw [h.fst_eq]
  exact h.inOrder.distinct

theorem mem_found (h : Gathered d names found m) {s : Stmt} (hs : s ∈ d.varStmts) :
    ∃ k c, s.kind = .ok k ∧ s.Yields names k c ∧ (s.name, c) ∈ found := by
  obtain ⟨⟨n, c⟩, hmem, rfl, k, hkind, hc⟩ := exists_of_mem_left h.yielded hs
  exact ⟨k, c, hkind, hc, hmem⟩

theorem of_mem_found (h : Gathered d names found m) {n : String} {c : Contribution}
    (hmem : (n, c) ∈ found) :
    ∃ s ∈ d.varStmts, ∃ k, s.name = n ∧ s.kind = .ok k ∧ s.Yields names k c := by
  obtain ⟨s, hs, hn, k, hkind, hc⟩ := exists_of_mem_right h.yielded hmem
  exact ⟨s, hs, k, hn.symm, hkind, hc⟩

theorem eq_of_mem (h : Gathered d names found m) {n : String} {c c' : Contribution}
    (hc : (n, c) ∈ found) (hc' : (n, c') ∈ found) : c = c' :=
  congrArg Prod.snd (List.inj_on_of_nodup_map h.nodup hc hc' rfl)

/-! ## The share of a variable -/

/-- Of the contributed rules exactly those of a variable have its name. -/
theorem formulasOf_eq (h : Gathered d names found m) {n : String} {c : Contribution}
    (hmem : (n, c) ∈ found) {part : Contribution → Option (Formula Float)}
    {rules : List (Rule Float)} (hperm : rules.Perm (contributedRules part found)) :
    formulasOf n rules = (part c).toList := by
  have hnd : (formulasOf n rules).Nodup := by
    have hnames : (ruleNames rules).Nodup := (hperm.map Rule.name).nodup_iff.mpr
      (h.nodup.sublist (ruleNames_contributed_sublist part found))
    refine List.Nodup.map_on ?_ (hnames.of_map.filter _)
    intro r hr q hq he
    have hrn := of_decide_eq_true (List.mem_filter.mp hr).2
    have hqn := of_decide_eq_true (List.mem_filter.mp hq).2
    obtain ⟨rname, _⟩ := r
    obtain ⟨qname, _⟩ := q
    cases hrn.trans hqn.symm
    cases he
    rfl
  have hiff : ∀ f, f ∈ formulasOf n rules ↔ f ∈ (part c).toList := by
    intro f
    rw [mem_formulasOf, hperm.mem_iff, mem_contributedRules, Option.mem_toList]
    constructor
    · rintro ⟨c', hc', hf⟩
      rwa [h.eq_of_mem hmem hc']
    · intro hf
      exact ⟨c, hmem, hf⟩
  have htoList : (part c).toList.Nodup := by cases part c <;> simp
  have hsame := (List.perm_ext_iff_of_nodup hnd htoList).mpr hiff
  cases hpart : part c with
  | none => rw [hpart] at hsame; exact List.perm_nil.mp hsame
  | some f => rw [hpart] at hsame; exact List.perm_singleton.mp hsame

/-- What is kept of contributions stands under the names of their variables. -/
theorem getElem?_ofList (h : Gathered d names found m) {β : Type} {g : Contribution → Option β}
    {n : String} {b : β} :
    (Std.TreeMap.ofList (found.filterMap fun (name, c) => (g c).map fun b => (name, b)))[n]? =
      some b ↔ ∃ c, (n, c) ∈ found ∧ g c = some b := by
  rw [getElem?_ofList_eq_some_iff (h.nodup.sublist (map_filterMap_sublist ?_ found)),
    List.mem_filterMap]
  · constructor
    · rintro ⟨⟨n', c⟩, hmem, hc⟩
      obtain ⟨b', hb, he⟩ := Option.map_eq_some_iff.mp hc
      cases he
      exact ⟨c, hmem, hb⟩
    · rintro ⟨c, hmem, hb⟩
      exact ⟨(n, c), hmem, by simp [hb]⟩
  · rintro ⟨n', c⟩ q hq
    obtain ⟨b', _, rfl⟩ := Option.map_eq_some_iff.mp hq
    rfl

theorem getElem?_tables (h : Gathered d names found m) {n : String} {t : Table Float} :
    m.equations.tables[n]? = some t ↔ ∃ c, (n, c) ∈ found ∧ c.table = some t := by
  rw [h.tables]
  exact h.getElem?_ofList

theorem getElem?_defaults (h : Gathered d names found m) {n : String} {x : Float} :
    m.defaults[n]? = some x ↔ ∃ c, (n, c) ∈ found ∧ c.default? = some x := by
  rw [h.defaults]
  exact h.getElem?_ofList

/-- **What a model holds of a variable is what the variable contributed.** -/
theorem share_eq (h : Gathered d names found m) {n : String} {c : Contribution}
    (hmem : (n, c) ∈ found) : m.share n = c.share := by
  have htable : m.equations.tables[n]? = c.table := Option.ext fun t => by
    rw [h.getElem?_tables]
    exact ⟨fun ⟨c', hc', ht⟩ => h.eq_of_mem hmem hc' ▸ ht, fun ht => ⟨c, hmem, ht⟩⟩
  have hdefault : m.defaults[n]? = c.default? := Option.ext fun x => by
    rw [h.getElem?_defaults]
    exact ⟨fun ⟨c', hc', hx⟩ => h.eq_of_mem hmem hc' ▸ hx, fun hx => ⟨c, hmem, hx⟩⟩
  unfold Model.share Contribution.share
  rw [h.formulasOf_eq hmem h.initials, h.formulasOf_eq hmem h.flows, h.formulasOf_eq hmem h.stocks,
    htable, hdefault]

/-! ## Rules and names -/

/-- No name has two rules in a list, and every rule is one of a variable. -/
theorem ruleNames_of_perm (h : Gathered d names found m)
    {part : Contribution → Option (Formula Float)} {rules : List (Rule Float)}
    (hperm : rules.Perm (contributedRules part found)) :
    (ruleNames rules).Nodup ∧ ruleNames rules ⊆ d.varNames := by
  have hsub := ruleNames_contributed_sublist part found
  have hnames := hperm.map Rule.name
  rw [h.fst_eq] at hsub
  exact ⟨hnames.nodup_iff.mpr (h.inOrder.distinct.sublist hsub),
    fun n hn => hsub.subset (hnames.mem_iff.mp hn)⟩

/-- A rule of a model is contributed by one of its variables. -/
theorem of_mem_rules (h : Gathered d names found m) {r : Rule Float}
    (hr : r ∈ m.equations.initials ++ m.equations.flows ++ m.equations.stocks) :
    ∃ c, (r.name, c) ∈ found ∧
      (c.start = some r.formula ∨ c.flow = some r.formula ∨ c.next = some r.formula) := by
  rcases List.mem_append.mp hr with hr | hr
  · rcases List.mem_append.mp hr with hr | hr
    · obtain ⟨c, hc, hf⟩ := mem_contributedRules.mp (h.initials.mem_iff.mp hr)
      exact ⟨c, hc, Or.inl hf⟩
    · obtain ⟨c, hc, hf⟩ := mem_contributedRules.mp (h.flows.mem_iff.mp hr)
      exact ⟨c, hc, Or.inr (Or.inl hf)⟩
  · obtain ⟨c, hc, hf⟩ := mem_contributedRules.mp (h.stocks.mem_iff.mp hr)
    exact ⟨c, hc, Or.inr (Or.inr hf)⟩

theorem eq_default (h : Gathered d names found m) {r : Rule Float}
    (hr : r ∈ m.equations.initials ++ m.equations.flows ++ m.equations.stocks) {n : String}
    (hn : r.formula.readsDefault n = true) : r = ⟨n, .default n⟩ := by
  obtain ⟨rname, f⟩ := r
  obtain ⟨c, hc, hf⟩ := h.of_mem_rules hr
  obtain ⟨s, _, k, rfl, _, hy⟩ := h.of_mem_found hc
  obtain ⟨rfl, rfl, _⟩ := hy.eq_default hf (Formula.readsDefault_iff.mp hn)
  rfl

theorem mem_defaults (h : Gathered d names found m) {n : String} : n ∈ m.defaults ↔
    ∃ s ∈ d.varStmts, s.name = n ∧ (s.kind = .ok .aux ∨ s.kind = .ok .flow) ∧
      ∃ v, s.value = some v ∧ v.constant?.isSome = true := by
  rw [Std.TreeMap.mem_iff_isSome_getElem?, Option.isSome_iff_exists]
  simp only [h.getElem?_defaults]
  constructor
  · rintro ⟨x, c, hc, hx⟩
    obtain ⟨s, hs, k, hname, hkind, hy⟩ := h.of_mem_found hc
    obtain ⟨hk, hv⟩ := hy.isSome_default?_iff.mp (by rw [hx]; rfl)
    refine ⟨s, hs, hname, ?_, hv⟩
    rcases hk with rfl | rfl
    · exact Or.inl hkind
    · exact Or.inr hkind
  · rintro ⟨s, hs, rfl, hkind, hv⟩
    obtain ⟨k, c, hkind', hy, hc⟩ := h.mem_found hs
    have hk : k = .aux ∨ k = .flow := by
      rw [hkind'] at hkind
      exact hkind.imp Except.ok.inj Except.ok.inj
    obtain ⟨x, hx⟩ := Option.isSome_iff_exists.mp (hy.isSome_default?_iff.mpr ⟨hk, hv⟩)
    exact ⟨x, c, hc, hx⟩

theorem isOverridable_iff (h : Gathered d names found m) {n : String} :
    m.isOverridable n = true ↔ (m.share n).flows = [.default n] := by
  constructor
  · intro hover
    obtain ⟨r, hr, hboth⟩ := List.any_eq_true.mp hover
    obtain ⟨_, hreads⟩ := Bool.and_eq_true_iff.mp hboth
    obtain rfl := h.eq_default (List.mem_append_left _ (List.mem_append_right _ hr)) hreads
    obtain ⟨c, hc, hf⟩ := mem_contributedRules.mp (h.flows.mem_iff.mp hr)
    rw [h.share_eq hc, Contribution.share, hf]
    rfl
  · intro hflows
    have hmem : Formula.default n ∈ (m.share n).flows := by
      rw [hflows]
      exact List.mem_singleton_self _
    exact List.any_eq_true.mpr ⟨_, mem_formulasOf.mp hmem, by simp [Formula.readsDefault]⟩

/-- **A model is abstract exactly if some rule asks for a default that is not there.** -/
theorem isAbstract_iff (h : Gathered d names found m) : m.isAbstract = true ↔
    ∃ r ∈ m.equations.initials ++ m.equations.flows ++ m.equations.stocks,
      ∃ n, r.formula.readsDefault n = true ∧ n ∉ m.defaults := by
  rw [h.isAbstract, List.any_eq_true]
  constructor
  · rintro ⟨s, hs, hnone⟩
    have hv := Option.isNone_iff_eq_none.mp hnone
    obtain ⟨k, c, _, hy, hc⟩ := h.mem_found hs
    have hflow : c.flow = some (.default s.name) := by
      cases hy with
      | bare => rfl
      | given hv' => rw [hv] at hv'; cases hv'
    have hcontributed : ⟨s.name, .default s.name⟩ ∈ contributedRules Contribution.flow found :=
      mem_contributedRules.mpr ⟨c, hc, hflow⟩
    have hrule := h.flows.mem_iff.mpr hcontributed
    refine ⟨_, List.mem_append_left _ (List.mem_append_right _ hrule), s.name,
      by simp [Formula.readsDefault], fun hdefault => ?_⟩
    obtain ⟨t, ht, hname, _, v, hv', _⟩ := h.mem_defaults.mp hdefault
    rw [List.inj_on_of_nodup_map h.inOrder.distinct ht hs hname, hv] at hv'
    cases hv'
  · rintro ⟨r, hr, n, hreads, hmissing⟩
    obtain ⟨c, hc, hf⟩ := h.of_mem_rules hr
    obtain ⟨s, hs, k, hname, _, hy⟩ := h.of_mem_found hc
    obtain ⟨rfl, _, hnone | hdefault⟩ := hy.eq_default hf (Formula.readsDefault_iff.mp hreads)
    · exact ⟨s, hs, Option.isNone_iff_eq_none.mpr hnone⟩
    · obtain ⟨x, hx⟩ := Option.isSome_iff_exists.mp hdefault
      have hfound := h.getElem?_defaults.mpr ⟨c, hname ▸ hc, hx⟩
      exact absurd (Std.TreeMap.mem_iff_isSome_getElem?.mpr (by rw [hfound]; rfl)) hmissing

end Gathered

end StockFlow
