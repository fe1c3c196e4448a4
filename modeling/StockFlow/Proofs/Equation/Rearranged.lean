import StockFlow.Proofs.Equation.Compiled
import StockFlow.Proofs.Model.Rearranged

/-!
# The equations of a model whose statements are in another order

* `Names.Same`, `Expr.formula_congr` — only what is known of names matters for formulas
* `Model.Rearranged` — models with the same variables and rules in another order
* `Definition.compile_rearranged` — a model with its statements in another order is made ready if
  the model is, and gives a rearranged model
-/

namespace StockFlow

/-! ## Formulas -/

/-- The same is known of all names. -/
structure Names.Same (names names' : Names) : Prop where
  kinds : ∀ n, names'.kinds.of? n = names.kinds.of? n
  valued : ∀ n, n ∈ names'.valued ↔ n ∈ names.valued
  started : ∀ n, n ∈ names'.started ↔ n ∈ names.started

variable {names names' : Names}

theorem Names.Same.isTable (h : names.Same names') (n : String) :
    names'.isTable n = names.isTable n := by
  unfold Names.isTable
  rw [h.kinds]

theorem Names.Same.isBareTable (h : names.Same names') (n : String) :
    names'.isBareTable n = names.isBareTable n := by
  unfold Names.isBareTable
  rw [h.isTable, decide_eq_decide.mpr (h.valued n)]

namespace Expr

theorem nameFormula_congr (h : names.Same names') (e : Expr) (n : String) :
    nameFormula names' e n = nameFormula names e n := by
  unfold nameFormula
  rw [h.isBareTable]

theorem tableName?_congr (h : names.Same names') (e : Expr) :
    tableName? names' e = tableName? names e := by
  unfold tableName?
  simp only [h.isTable]

mutual

/-- **Only what is known of names matters for the formula of an expression.** -/
theorem formula_congr (h : names.Same names') (e : Expr) : e.formula names' = e.formula names := by
  match e with
  | .number _ _ | .literal _ _ | .composite _ _ _ | .keyed _ _ _ | .pair _ _ _ | .table _ _ =>
    simp only [formula]
  | .var n s =>
    rw [formula, formula]
    exact nameFormula_congr h _ n
  | .paren x _ | .units x _ _ | .negate x _ => simp only [formula, formula_congr h x]
  | .binary _ l r _ => simp only [formula, formula_congr h l, formula_congr h r]
  | .index t i _ => simp only [formula, tableName?_congr h t, formula_congr h i]
  | .call _ args _ => simp only [formula, formulas_congr h args]

theorem formulas_congr (h : names.Same names') (es : List Expr) :
    formulas names' es = formulas names es := by
  match es with
  | [] => rfl
  | e :: es => simp only [formulas, formula_congr h e, formulas_congr h es]

end

theorem startFormula_congr (h : names.Same names') (e : Expr) :
    e.startFormula names' = e.startFormula names := by
  unfold startFormula
  simp only [h.started]

end Expr

theorem StockBody.netFlow_congr (h : names.Same names') (body : StockBody) :
    body.netFlow names' = body.netFlow names := by
  unfold netFlow StockBody.flow
  simp only [Expr.formula_congr h]

theorem StockBody.start_congr (h : names.Same names') (body : StockBody) :
    body.start names' = body.start names := by
  unfold start
  simp only [Expr.startFormula_congr h]

/-- **Only what is known of names matters for what a variable contributes.** -/
theorem Stmt.contribution_congr (h : names.Same names') (model : String) (k : VarKind) (s : Stmt) :
    s.contribution names' model k = s.contribution names model k := by
  unfold contribution stockContribution tableContribution flowContribution
  simp only [Expr.formula_congr h, StockBody.start_congr h, StockBody.netFlow_congr h]

/-! ## Analyses -/

/-- The same is found out of two models, though in another order. -/
structure Analysis.Rearranged (a a' : Analysis) : Prop where
  name : a'.definition.name = a.definition.name
  isInterface : a'.definition.isInterface = a.definition.isInterface
  timespec : a'.timespec = a.timespec
  isAbstract : a'.scope.isAbstract = a.scope.isAbstract
  stmts : a'.definition.varStmts.Perm a.definition.varStmts
  distinct : a.definition.varNames.Nodup
  kinds : ∀ n, a'.kinds.of? n = a.kinds.of? n

theorem Definition.analyze_rearranged {d : Definition} {stmts : List Stmt} {a : Analysis}
    (hnd : (d.stmts.map Stmt.name).Nodup) (hp : stmts.Perm d.stmts) (h : d.analyze = .ok a) :
    ∃ a', (d.rearranged stmts).analyze = .ok a' ∧ a.Rearranged a' := by
  obtain ⟨spec, hspec, h⟩ := bind_eq_ok.mp h
  obtain ⟨sc, hsc, h⟩ := bind_eq_ok.mp h
  obtain ⟨ks, hks, h⟩ := bind_eq_ok.mp h
  cases h
  obtain ⟨hnames, -⟩ := namesInOrder_of_scope hsc
  obtain ⟨sc', hsc', habstract⟩ := scope_rearranged hp hsc
  obtain ⟨ks', hks', hkinds⟩ := kinds_rearranged hp hks
  refine ⟨⟨d.rearranged stmts, spec, sc', ks'⟩, ?_, rfl, rfl, rfl, habstract,
    varStmts_rearranged hp, hnames.distinct, Kinds.of?_perm (kinds_nodup hks hnames) hkinds⟩
  refine bind_eq_ok.mpr ⟨spec, ?_, bind_eq_ok.mpr ⟨sc', hsc', bind_eq_ok.mpr ⟨ks', hks', rfl⟩⟩⟩
  rw [timespec_rearranged hnd hp]
  exact hspec

/-- What is contributed stands under the names of the variables. -/
theorem Analysis.fst_contributions {a : Analysis} {found : List (String × Contribution)}
    (h : a.contributions = .ok found) : found.map Prod.fst = a.definition.varNames := by
  refine map_eq_of_forall₂ ((List.forall₂_map_left_iff.mp (mapM_eq_ok.mp h)).imp ?_)
  intro s p hp
  obtain ⟨c, _, hp⟩ := bind_eq_ok.mp hp
  cases hp
  rfl

namespace Analysis.Rearranged

variable {a a' : Analysis}

theorem typed (h : a.Rearranged a') : a'.typed.Perm a.typed := by
  unfold Analysis.typed
  simp only [h.kinds]
  exact h.stmts.map _

theorem sameNames (h : a.Rearranged a') : a.names.Same a'.names where
  kinds := h.kinds
  valued _ := ((h.typed.filter _).map _).mem_iff
  started _ := ((h.typed.filter _).map _).mem_iff

/-- The same is contributed. -/
theorem contributions (h : a.Rearranged a') {found : List (String × Contribution)}
    (hfound : a.contributions = .ok found) :
    ∃ found', a'.contributions = .ok found' ∧ found'.Perm found := by
  unfold Analysis.contributions at hfound ⊢
  simp only [Stmt.contribution_congr h.sameNames, h.name]
  exact mapM_perm h.typed hfound

end Analysis.Rearranged

/-! ## Models -/

variable {α : Type}

/-- **Models with the same variables and rules in another order.** -/
structure Model.Rearranged (m m' : Model α) : Prop where
  name : m'.name = m.name
  isInterface : m'.isInterface = m.isInterface
  isAbstract : m'.isAbstract = m.isAbstract
  timespec : m'.timespec = m.timespec
  vars : m'.vars.Perm m.vars
  defaults : ∀ n : String, m'.defaults[n]? = m.defaults[n]?
  initials : m'.equations.initials.Perm m.equations.initials
  flows : m'.equations.flows.Perm m.equations.flows
  stocks : m'.equations.stocks.Perm m.equations.stocks
  tables : ∀ n : String, m'.equations.tables[n]? = m.equations.tables[n]?

theorem Model.Rearranged.recorded {m m' : Model α} (h : m.Rearranged m') :
    m'.recorded.Perm m.recorded := (h.vars.filter _).map _

theorem contributedRules_perm {found found' : List (String × Contribution)}
    (hp : found'.Perm found) (part : Contribution → Option (Formula Float)) :
    (contributedRules part found').Perm (contributedRules part found) := hp.filterMap _

/-- Contributed rules that can be put in order can be put in order as they are rearranged. -/
theorem Analysis.ordered_perm {a a' : Analysis} {list : RuleList}
    {rules rules' out : List (Rule Float)} (hnd : (ruleNames rules).Nodup)
    (hp : rules'.Perm rules) (hok : a.ordered list rules = .ok out) :
    ∃ out', a'.ordered list rules' = .ok out' ∧ out'.Perm out := by
  have hout := mapError_eq_ok.mp hok
  obtain ⟨out', hout'⟩ := orderRules_isOk_of_perm hnd hp hout
  have hnd' : (ruleNames rules').Nodup := (hp.map Rule.name).nodup_iff.mpr hnd
  exact ⟨out', mapError_eq_ok.mpr hout',
    (orderRules_ok hnd' hout').2.trans (hp.trans (orderRules_ok hnd hout).2.symm)⟩

theorem Analysis.Rearranged.compile {a a' : Analysis} (h : a.Rearranged a') {m : Model Float}
    (hm : a.compile = .ok m) : ∃ m', a'.compile = .ok m' ∧ m.Rearranged m' := by
  obtain ⟨found, hfound, hm⟩ := bind_eq_ok.mp hm
  obtain ⟨flows, hflows, hm⟩ := bind_eq_ok.mp hm
  obtain ⟨initials, hinitials, hm⟩ := bind_eq_ok.mp hm
  cases hm
  obtain ⟨found', hfound', hp⟩ := h.contributions hfound
  have hnd : (found.map Prod.fst).Nodup := by
    rw [Analysis.fst_contributions hfound]
    exact h.distinct
  have hrules := fun part => hnd.sublist (ruleNames_contributed_sublist part found)
  obtain ⟨flows', hflows', hpf⟩ :=
    Analysis.ordered_perm (hrules _) (contributedRules_perm hp _) hflows
  obtain ⟨initials', hinitials', hpi⟩ :=
    Analysis.ordered_perm (hrules _) (contributedRules_perm hp _) hinitials
  refine ⟨_, bind_eq_ok.mpr ⟨found', hfound', bind_eq_ok.mpr ⟨flows', hflows',
    bind_eq_ok.mpr ⟨initials', hinitials', rfl⟩⟩⟩, ?_⟩
  refine ⟨h.name, h.isInterface, h.isAbstract, h.timespec, hp.map _, ?defaults, hpi, hpf,
    contributedRules_perm hp _, ?tables⟩
  case defaults =>
    refine getElem?_ofList_perm (hnd.sublist (map_filterMap_sublist ?_ found)) (hp.filterMap _)
    rintro ⟨n', c'⟩ q hq
    simp only [Option.ite_none_right_eq_some] at hq
    obtain ⟨x', _, rfl⟩ := Option.map_eq_some_iff.mp hq.2
    rfl
  case tables =>
    refine getElem?_ofList_perm (hnd.sublist (map_filterMap_sublist ?_ found)) (hp.filterMap _)
    rintro ⟨n', c'⟩ q hq
    obtain ⟨t, _, rfl⟩ := Option.map_eq_some_iff.mp hq
    rfl

/-- **A model with its statements in another order is made ready if the model is,** and gives a
rearranged model. -/
theorem Definition.compile_rearranged {d : Definition} {stmts : List Stmt} {m : Model Float}
    (hnd : (d.stmts.map Stmt.name).Nodup) (hp : stmts.Perm d.stmts)
    (h : d.analyze >>= Analysis.compile = .ok m) :
    ∃ m', (d.rearranged stmts).analyze >>= Analysis.compile = .ok m' ∧ m.Rearranged m' := by
  obtain ⟨a, ha, hm⟩ := bind_eq_ok.mp h
  obtain ⟨a', ha', harranged⟩ := analyze_rearranged hnd hp ha
  obtain ⟨m', hm', hmodels⟩ := harranged.compile hm
  exact ⟨m', bind_eq_ok.mpr ⟨a', ha', hm'⟩, hmodels⟩

end StockFlow
