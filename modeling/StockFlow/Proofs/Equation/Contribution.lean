import StockFlow.Proofs.Equation.StockBody
import StockFlow.Proofs.Model.Names

/-!
# What variables contribute

* `Stmt.kind_eq_ok` — a kind is suggested by the value or checked against it
* `Stmt.isStockBody_iff_kind` — a variable is a stock exactly if its value is the body of one
* `Stmt.Contributes` — what a variable with a value contributes, and what that stands for
* `Stmt.contributes_of_contribution` — nothing else is contributed
-/

namespace StockFlow.Stmt

variable {names : Names} {s : Stmt} {v : Expr} {k : VarKind}

/-! ## Kinds and values -/

theorem stripUnits_of_isStockBody (h : v.isStockBody = true) :
    ∃ type es at_, v.stripUnits = .composite type es at_ := by
  unfold Expr.isStockBody at h
  cases hv : v.stripUnits with
  | composite type es at_ => exact ⟨type, es, at_, rfl⟩
  | _ => simp only [hv, Bool.false_eq_true] at h

theorem not_isStockBody_of_isTable (h : v.isTable = true) : v.isStockBody = false := by
  refine Bool.eq_false_iff.mpr ?_
  intro hstock
  obtain ⟨type, es, at_, hv⟩ := stripUnits_of_isStockBody hstock
  simp only [Expr.isTable, hv, Bool.false_eq_true] at h

theorem not_isStockBody_of_constant? (h : v.constant?.isSome = true) : v.isStockBody = false := by
  refine Bool.eq_false_iff.mpr ?_
  intro hstock
  obtain ⟨type, es, at_, hv⟩ := stripUnits_of_isStockBody hstock
  simp only [Expr.constant?, hv, Option.isSome_none, Bool.false_eq_true] at h

theorem isStockBody_of_suggestedKind (hv : s.value = some v) (h : s.suggestedKind = .ok k) :
    v.isStockBody = true ↔ k = .stock := by
  unfold suggestedKind at h
  simp only [hv] at h
  by_cases htable : v.stripUnits.isTable = true
  · rw [if_pos htable] at h
    cases h
    refine iff_of_false ?_ nofun
    intro hstock
    obtain ⟨type, es, at_, hstrip⟩ := stripUnits_of_isStockBody hstock
    rw [hstrip] at htable
    cases htable
  · rw [if_neg htable] at h
    unfold Expr.isStockBody
    cases hstrip : v.stripUnits with
    | composite type es at_ =>
      simp only [hstrip] at h
      cases type with
      | none =>
        cases h
        exact iff_of_true rfl rfl
      | some type =>
        by_cases htype : type = "stock"
        · simp only [if_pos htype, Except.ok.injEq] at h
          simp [htype, ← h]
        · simp only [if_neg htype, reduceCtorEq] at h
    | _ =>
      simp only [hstrip, Except.ok.injEq] at h
      rw [← h]
      exact iff_of_false nofun nofun

/-- A kind that is written was checked against the value. -/
theorem kind_eq_ok (h : s.kind = .ok k) :
    s.decl.kind = none ∧ s.suggestedKind = .ok k ∨ s.mismatch? k = none := by
  unfold kind at h
  cases hk : s.decl.kind with
  | none =>
    rw [hk] at h
    exact Or.inl ⟨rfl, h⟩
  | some written =>
    obtain ⟨text, span⟩ := written
    simp only [hk] at h
    cases hname : VarKind.ofName? text with
    | none =>
      rw [hname] at h
      cases h
    | some kind =>
      simp only [hname] at h
      cases hmis : s.mismatch? kind with
      | some m =>
        rw [hmis] at h
        cases h
      | none =>
        rw [hmis] at h
        cases h
        exact Or.inr hmis

/-- **A variable is a stock exactly if its value is the body of one.** -/
theorem isStockBody_iff_kind (hv : s.value = some v) (h : s.kind = .ok k) :
    v.isStockBody = true ↔ k = .stock := by
  rcases kind_eq_ok h with ⟨_, hsuggested⟩ | hmis
  · exact isStockBody_of_suggestedKind hv hsuggested
  · unfold mismatch? at hmis
    simp only [hv] at hmis
    cases k with
    | stock => simpa using hmis
    | table =>
      have htable : v.isTable = true := by simpa using hmis
      simp [not_isStockBody_of_isTable htable]
    | const =>
      have hconst : v.constant?.isSome = true := by
        cases hx : v.constant? <;> simp_all
      simp [not_isStockBody_of_constant? hconst]
    | aux | flow =>
      by_cases htable : v.isTable = true
      · simp [htable] at hmis
      · cases hstock : v.isStockBody with
        | true => simp [htable, hstock] at hmis
        | false => exact iff_of_false nofun nofun

/-! ## Contributions -/

/-- **What a variable with a value contributes,** and what that stands for. -/
inductive Contributes (names : Names) (s : Stmt) (v : Expr) : VarKind → Contribution → Prop
  | stock {o : Expr.Origin} {net : Formula Float} (horigin : v.origin? = some o)
      (hnames : ∀ n, o = .sameAs n → n = "time" ∨ n ∈ names.started)
      (hnet : Expr.Admissible names v.references net)
      (hvalue : ∀ w, net.value? w = v.net? w) :
      Contributes names s v .stock
        { kind := .stock, start := some (StockBody.originFormula o),
          next := some (StockBody.nextFormula s.name net) }
  | table {t : Table Float} (hindex : tableIndex? v = none) (htable : v.givenTable? = some t)
      (hvalue : ∀ w, v.value? w = none) :
      Contributes names s v .table { kind := .table, table := some t }
  | lookup {t : Table Float} {index : Formula Float} (hindex : (tableIndex? v).isSome = true)
      (htable : v.givenTable? = some t) (hadm : Expr.Admissible names v.references index)
      (hvalue : ∀ w, v.value? w = (index.value? w).map t.lookup) :
      Contributes names s v .table
        { kind := .table, table := some t, flow := some (.lookup s.name index) }
  | const {x : Float} (hx : v.constant? = some x) :
      Contributes names s v .const
        { kind := .const, start := some (.const x), flow := some (.const x), constant := some x }
  | settable {k : VarKind} {x : Float} (hk : k = .aux ∨ k = .flow) (hx : v.constant? = some x) :
      Contributes names s v k
        { kind := k, start := some (.const x), flow := some (.default s.name), constant := some x,
          isSettable := true }
  | computed {k : VarKind} {f : Formula Float} (hk : k = .aux ∨ k = .flow)
      (hx : v.constant? = none) (hf : v.LowersTo names f) :
      Contributes names s v k { kind := k, flow := some f }

theorem contributes_of_stockContribution {c : Contribution}
    (h : s.stockContribution names v = .ok c) : Contributes names s v .stock c := by
  obtain ⟨body, hbody, h⟩ := bind_eq_ok.mp h
  obtain ⟨start, hstart, h⟩ := bind_eq_ok.mp h
  obtain ⟨net, hnet, h⟩ := bind_eq_ok.mp h
  cases h
  obtain ⟨o, horigin, rfl, hnames⟩ := StockBody.start_ok hbody hstart
  obtain ⟨hadm, hvalue⟩ := StockBody.netFlow_ok hbody hnet
  exact .stock horigin hnames hadm hvalue

/-- A table that is not looked up where it is given has no value. -/
theorem value?_of_tablePoints {points : List (Float × Float)} (h : v.tablePoints = .ok points)
    (hindex : tableIndex? v = none) (w : Setting Float) : v.value? w = none := by
  unfold tableIndex? at hindex
  cases v with
  | table es at_ => rw [Expr.value?]
  | index t i at_ => simp [Expr.stripUnits] at hindex
  | units x note at_ =>
    rw [Expr.value?]
    cases x with
    | table es at_ => rw [Expr.value?]
    | index t i at_ => simp [Expr.stripUnits] at hindex
    | _ => simp [Expr.tablePoints] at h
  | _ => simp [Expr.tablePoints] at h

/-- The value of a table that is looked up where it is given. -/
theorem value?_of_tableIndex? {points : List (Float × Float)} {i : Expr}
    (h : v.tablePoints = .ok points) (hindex : tableIndex? v = some i) (w : Setting Float) :
    v.value? w = (i.value? w).map (Expr.tableThrough points).lookup := by
  have hone : ∀ {t i' : Expr} {at_ : Span}, (Expr.index t i' at_).tablePoints = .ok points →
      (Expr.index t i' at_).value? w = (i'.value? w).map (Expr.tableThrough points).lookup := by
    intro t i' at_ ht
    rw [Expr.tablePoints] at ht
    rw [Expr.value?, Expr.tableOf?_of_tablePoints ht]
    cases i'.value? w <;> rfl
  unfold tableIndex? at hindex
  cases v with
  | index t i' at_ =>
    simp only [Expr.stripUnits, Option.some.injEq] at hindex
    exact hindex ▸ hone h
  | units x note at_ =>
    rw [Expr.value?]
    cases x with
    | index t i' at_' =>
      simp only [Expr.stripUnits, Option.some.injEq] at hindex
      rw [Expr.tablePoints] at h
      exact hindex ▸ hone (by rw [Expr.tablePoints]; exact h)
    | _ => simp [Expr.stripUnits] at hindex
  | _ => simp [Expr.stripUnits] at hindex

/-- What stands in an index stands in the whole. -/
theorem references_subset_of_tableIndex? {i : Expr} (h : tableIndex? v = some i) :
    i.references ⊆ v.references := by
  unfold tableIndex? at h
  have hbody := StockBody.references_stripUnits v
  cases hv : v.stripUnits with
  | index t i' at_ =>
    simp only [hv, Option.some.injEq] at h
    rw [hv, Expr.references.eq_def (.index t i' at_)] at hbody
    exact h ▸ List.Subset.trans (List.subset_append_right _ _) hbody
  | _ => simp [hv] at h

theorem contributes_of_tableContribution {model : String} {c : Contribution}
    (h : s.tableContribution names model v = .ok c) : Contributes names s v .table c := by
  obtain ⟨points, hpoints, h⟩ := bind_eq_ok.mp h
  obtain ⟨t, ht, h⟩ := bind_eq_ok.mp h
  have hpoints := mapError_eq_ok.mp hpoints
  have ht := Expr.tableThrough_of_ofPoints (mapError_eq_ok.mp ht)
  have hgiven := (Expr.givenTable?_of_tablePoints v hpoints).1
  cases hindex : tableIndex? v with
  | none =>
    simp only [hindex] at h
    cases h
    exact .table hindex (ht ▸ hgiven) (value?_of_tablePoints hpoints hindex)
  | some i =>
    simp only [hindex] at h
    obtain ⟨index, hi, h⟩ := bind_eq_ok.mp h
    cases h
    have hlower := Expr.lowersTo_of_formula i (mapError_eq_ok.mp hi)
    refine .lookup (by rw [hindex]; rfl) (ht ▸ hgiven)
      (hlower.admissible.mono (references_subset_of_tableIndex? hindex)) ?_
    intro w
    rw [value?_of_tableIndex? hpoints hindex, hlower.value, ht]

theorem contributes_of_flowContribution {c : Contribution} (hk : k = .aux ∨ k = .flow)
    (h : s.flowContribution names k v = .ok c) : Contributes names s v k c := by
  unfold flowContribution at h
  cases hx : v.constant? with
  | some x =>
    rw [hx] at h
    cases h
    exact .settable hk hx
  | none =>
    simp only [hx] at h
    obtain ⟨f, hf, h⟩ := bind_eq_ok.mp h
    cases h
    exact .computed hk hx (Expr.lowersTo_of_formula v hf)

/-- **Nothing else is contributed.** -/
theorem contributes_of_contribution {model : String} {c : Contribution} (hv : s.value = some v)
    (h : s.contribution names model k = .ok c) : Contributes names s v k c := by
  unfold contribution at h
  simp only [hv] at h
  cases k with
  | stock => exact contributes_of_stockContribution (mapError_eq_ok.mp h)
  | table => exact contributes_of_tableContribution h
  | const =>
    have h := mapError_eq_ok.mp h
    unfold constContribution at h
    cases hx : v.constant? with
    | none => rw [hx] at h; cases h
    | some x =>
      rw [hx] at h
      cases h
      exact .const hx
  | aux => exact contributes_of_flowContribution (Or.inl rfl) (mapError_eq_ok.mp h)
  | flow => exact contributes_of_flowContribution (Or.inr rfl) (mapError_eq_ok.mp h)

/-! ## Which rules there are -/

namespace Contributes

variable {c : Contribution}

/-- What has a starting value has another rule as well. -/
theorem hasRule_of_start (h : Contributes names s v k c) (hstart : c.start.isSome = true) :
    c.next.isSome = true ∨ c.flow.isSome = true := by
  cases h <;> simp at hstart ⊢

theorem start_of_next (h : Contributes names s v k c) (hnext : c.next.isSome = true) :
    c.start.isSome = true ∧ c.flow = none := by
  cases h <;> simp at hnext ⊢

/-- All but tables have a rule for each state. -/
theorem hasRule (h : Contributes names s v k c) (hk : k ≠ .table) :
    c.next.isSome = true ∨ c.flow.isSome = true := by
  cases h <;> simp at hk ⊢

/-- **What a variable starts with is what its statement says.** -/
theorem origin?_of_start (h : Contributes names s v k c) {f : Formula Float}
    (hstart : c.start = some f) : ∃ o, v.origin? = some o ∧ f = StockBody.originFormula o ∧
      ∀ n, o = .sameAs n → n = "time" ∨ n ∈ names.started := by
  have hconst : ∀ {x : Float}, v.constant? = some x → v.origin? = some (.value x) := by
    intro x hx
    have hbody := not_isStockBody_of_constant? (v := v) (by rw [hx]; rfl)
    rw [Expr.origin?, hbody, if_neg Bool.false_ne_true, hx, Option.map_some]
  cases h with
  | stock horigin hnames =>
    cases hstart
    exact ⟨_, horigin, rfl, hnames⟩
  | const hx | settable _ hx =>
    cases hstart
    exact ⟨_, hconst hx, rfl, fun _ hn => by cases hn⟩
  | table | lookup | computed => cases hstart

theorem isSome_start (h : Contributes names s v k c) (hv : s.value = some v)
    (hstarted : s.isStarted k = true) : c.start.isSome = true := by
  simp only [Stmt.isStarted, hv] at hstarted
  cases h with
  | stock | const | settable => rfl
  | table | lookup => cases hstarted
  | computed hk hx _ => rcases hk with rfl | rfl <;> simp [hx] at hstarted

end Contributes

end StockFlow.Stmt
