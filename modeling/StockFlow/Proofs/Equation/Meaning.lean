import StockFlow.Proofs.Equation.Compiled

/-!
# Rules mean what statements mean

* `Compiled.exists_equation`, `Compiled.exists_stock` — each rule stands for its statement
* `Compiled.rule_of_equation`, `Compiled.rule_of_stock` — each statement has its rule
* `Compiled.begins_unique`, `Compiled.follows_unique` — a model has one first state, and one state
  after each
-/

namespace StockFlow

/-- What formulas stand for in a state, while nothing is set from outside. -/
def Model.setting (m : Model Float) (spec : Timespec Float) (σ : State) : Setting Float where
  value := σ
  default n := m.defaults[n]?
  table n := m.equations.tables[n]?
  dt := spec.dt

namespace Compiled

variable {d : Definition} {names : Names} {found : List (String × Contribution)}
  {m : Model Float} {spec : Timespec Float} {σ σ' : State}

/-! ## Statements -/

theorem says_unique (h : Compiled d names found m) {n : String} {e e' : Expr}
    (he : d.Says n e) (he' : d.Says n e') : e = e' := by
  obtain ⟨s, hs, hn, hv⟩ := he
  obtain ⟨s', hs', hn', hv'⟩ := he'
  cases List.inj_on_of_nodup_map h.inOrder.distinct hs hs' (hn.trans hn'.symm)
  exact Option.some.inj (hv.symm.trans hv')

theorem name_ne_time (h : Compiled d names found m) {s : Stmt} (hs : s ∈ d.varStmts) :
    s.name ≠ timeName := by
  intro he
  refine h.inOrder.explicit s hs ?_
  rw [he]
  decide

/-! ## Values -/

theorem value?_of_constant? {e : Expr} {x : Float} (h : e.constant? = some x) (w : Setting Float) :
    e.value? w = some x := by
  have hstrip : ∀ {e' : Expr}, e.stripUnits = e' → e'.value? w = some x → e.value? w = some x := by
    intro e' he' hx
    cases e with
    | units y _ _ =>
      rw [Expr.value?]
      rw [Expr.stripUnits] at he'
      rwa [he']
    | _ =>
      subst he'
      exact hx
  unfold Expr.constant? at h
  cases he : e.stripUnits with
  | number numeral at_ =>
    simp only [he, Option.some.injEq] at h
    exact hstrip he (by rw [Expr.value?, h])
  | negate y at_ =>
    cases y with
    | number numeral at_' =>
      simp only [he, Option.some.injEq] at h
      exact hstrip he (by rw [Expr.value?, Expr.value?, ← h]; rfl)
    | _ => simp only [he, reduceCtorEq] at h
  | _ => simp only [he, reduceCtorEq] at h

/-- A formula that asks for nothing has the same value for the statements and for the rules. -/
theorem value?_setting (h : Compiled d names found m) {refs : List (String × Span)}
    {f : Formula Float} (hf : Expr.Admissible names refs f) (spec : Timespec Float) (σ : State) :
    f.value? (d.setting spec σ) = f.value? (m.setting spec σ) := by
  refine Formula.value?_congr (fun _ _ => rfl) (fun n hn => ?_) (fun n hn => ?_) rfl
  · rw [hf.asked] at hn
    cases hn
  · obtain ⟨t, ht, ht'⟩ := h.exists_table (hf.tables n hn)
    exact ht'.trans ht.symm

/-- **Each rule of a step stands for the equation of its variable.** -/
theorem exists_equation (h : Compiled d names found m) {r : Rule Float}
    (hr : r ∈ m.equations.flows) : ∃ side, d.IsEquation r.name side ∧
      ∀ spec σ, side.value? (d.setting spec σ) = r.formula.value? (m.setting spec σ) := by
  obtain ⟨rname, formula⟩ := r
  obtain ⟨c, hmem, hflow⟩ := h.mem_flows.mp hr
  obtain ⟨s, hs, v, k, rfl, hv, hkind, hc⟩ := h.of_mem_found hmem
  have hside : k ≠ .stock → d.IsEquation s.name v := fun hk =>
    ⟨⟨s, hs, rfl, hv⟩, Bool.eq_false_iff.mpr fun hstock =>
      hk ((Stmt.isStockBody_iff_kind hv hkind).mp hstock)⟩
  cases hc with
  | stock | table => cases hflow
  | lookup _ _ hadm hvalue =>
    cases hflow
    refine ⟨v, hside nofun, ?_⟩
    intro spec σ
    have ht : (m.setting spec σ).table s.name = some _ := h.getElem?_tables hmem rfl
    rw [hvalue, h.value?_setting hadm, Formula.value?, ht]
    cases Formula.value? (m.setting spec σ) _ <;> rfl
  | const hx =>
    cases hflow
    exact ⟨v, hside nofun, fun spec σ => value?_of_constant? hx _⟩
  | settable hk hx =>
    cases hflow
    refine ⟨v, hside (by rcases hk with rfl | rfl <;> exact nofun), ?_⟩
    intro spec σ
    rw [value?_of_constant? hx]
    exact (h.getElem?_defaults hmem rfl rfl).symm
  | computed hk _ hf =>
    cases hflow
    refine ⟨v, hside (by rcases hk with rfl | rfl <;> exact nofun), ?_⟩
    intro spec σ
    rw [← hf.value, h.value?_setting hf.admissible]

/-- **Each equation has its rule,** or is that of a table, which has no value. -/
theorem rule_of_equation (h : Compiled d names found m) {n : String} {side : Expr}
    (he : d.IsEquation n side) : n ∈ ruleNames m.equations.flows ∨
      n ∉ m.stateNames ∧ ∀ w, side.value? w = none := by
  obtain ⟨⟨s, hs, rfl, hv⟩, hstock⟩ := he
  obtain ⟨v, k, c, hv', hkind, hc, hmem⟩ := h.mem_found hs
  cases hv.symm.trans hv'
  rw [h.mem_flowNames]
  cases hc with
  | stock =>
    rw [(Stmt.isStockBody_iff_kind hv hkind).mpr rfl] at hstock
    cases hstock
  | table _ _ hvalue =>
    refine Or.inr ⟨?_, hvalue⟩
    intro hstate
    rcases List.mem_cons.mp hstate with htime | hstate
    · exact h.name_ne_time hs htime
    · rw [List.mem_append, h.mem_stockNames, h.mem_flowNames] at hstate
      rcases hstate with ⟨c', hmem', hsome⟩ | ⟨c', hmem', hsome⟩
      · rw [← h.eq_of_mem hmem hmem'] at hsome
        cases hsome
      · rw [← h.eq_of_mem hmem hmem'] at hsome
        cases hsome
  | lookup | const | settable | computed => exact Or.inl ⟨_, hmem, rfl⟩

/-- The next value of a stock is its value moved on by its net flow over the step. -/
theorem value?_nextFormula {w : Setting Float} {n : String} {net : Formula Float} {y : Float}
    (h : (StockBody.nextFormula n net).value? w = some y) :
    ∃ x flow, w.value n = some x ∧ net.value? w = some flow ∧ y = x + flow * w.dt := by
  obtain ⟨x, hx, h⟩ := Option.bind_eq_some_iff.mp h
  obtain ⟨z, hz, rfl⟩ := Option.map_eq_some_iff.mp h
  obtain ⟨flow, hflow, hz⟩ := Option.bind_eq_some_iff.mp hz
  cases hz
  exact ⟨x, flow, hx, hflow, rfl⟩

/-- **Each rule of a stock stands for the body of its variable.** -/
theorem exists_stock (h : Compiled d names found m) {r : Rule Float}
    (hr : r ∈ m.equations.stocks) : ∃ body net, d.IsStock r.name body ∧
      r.formula = StockBody.nextFormula r.name net ∧
      ∀ spec σ, body.net? (d.setting spec σ) = net.value? (m.setting spec σ) := by
  obtain ⟨rname, formula⟩ := r
  obtain ⟨c, hmem, hnext⟩ := h.mem_stocks.mp hr
  obtain ⟨s, hs, v, k, rfl, hv, hkind, hc⟩ := h.of_mem_found hmem
  cases hc with
  | @stock o net _ _ hnet hvalue =>
    cases hnext
    refine ⟨v, net, ⟨⟨s, hs, rfl, hv⟩, (Stmt.isStockBody_iff_kind hv hkind).mpr rfl⟩, rfl,
      ?_⟩
    intro spec σ
    rw [← hvalue, h.value?_setting hnet]
  | table | lookup | const | settable | computed => cases hnext

theorem rule_of_stock (h : Compiled d names found m) {n : String} {body : Expr}
    (hstock : d.IsStock n body) : n ∈ ruleNames m.equations.stocks := by
  obtain ⟨⟨s, hs, rfl, hv⟩, hbody⟩ := hstock
  obtain ⟨v, k, c, hv', hkind, hc, hmem⟩ := h.mem_found hs
  cases hv.symm.trans hv'
  rw [h.mem_stockNames]
  cases (Stmt.isStockBody_iff_kind hv hkind).mp hbody
  cases hc with
  | stock => exact ⟨_, hmem, rfl⟩
  | settable hk | computed hk => simp at hk

/-! ## Starting values -/

theorem says_time (h : Compiled d names found m) {e : Expr} : ¬d.Says timeName e := by
  rintro ⟨s, hs, hn, _⟩
  exact h.name_ne_time hs hn

/-- **Starting values that are computed from one another are those that the statements give.** -/
theorem startsAt_of_initials (h : Compiled d names found m) (htime : σ timeName = some spec.start)
    (hσ : ∀ r ∈ m.equations.initials, σ r.name = r.formula.value? (m.setting spec σ)) :
    ∀ r ∈ m.equations.initials, ∀ x, σ r.name = some x → d.StartsAt spec r.name x := by
  -- a starting value is taken from the time or from a starting value that is computed before it
  refine h.sound.initials.induction (P := fun n => ∀ x, σ n = some x → d.StartsAt spec n x)
    ?_ ?_
  · intro r hr n hn hnot x hx
    rw [(h.sound.initials_vars r hr n hn).resolve_right hnot] at hx ⊢
    cases htime.symm.trans hx
    exact .time
  · intro r hr hreads x hx
    rw [hσ r hr] at hx
    obtain ⟨rname, formula⟩ := r
    obtain ⟨c, hmem, hstart⟩ := h.mem_initials.mp hr
    obtain ⟨s, hs, v, k, rfl, hv, hkind, hc⟩ := h.of_mem_found hmem
    have hsaid : d.Says s.name v := ⟨s, hs, rfl, hv⟩
    obtain ⟨o, horigin, rfl, _⟩ := hc.origin?_of_start hstart
    cases o with
    | value y =>
      cases hx
      exact .value hsaid horigin
    | step =>
      cases hx
      exact .step hsaid horigin
    | sameAs n => exact .sameAs hsaid horigin (hreads n (List.mem_singleton.mpr rfl) x hx)

/-- **A variable starts with one value.** -/
theorem startsAt_unique (h : Compiled d names found m) {n : String} {x y : Float}
    (hx : d.StartsAt spec n x) (hy : d.StartsAt spec n y) : x = y := by
  induction hx generalizing y with
  | time =>
    cases hy with
    | time => rfl
    | value hs | step hs | sameAs hs => exact absurd hs h.says_time
  | value hs he =>
    cases hy with
    | time => exact absurd hs h.says_time
    | value hs' he' =>
      cases h.says_unique hs hs'
      cases he.symm.trans he'
      rfl
    | step hs' he' | sameAs hs' he' =>
      cases h.says_unique hs hs'
      cases he.symm.trans he'
  | step hs he =>
    cases hy with
    | time => exact absurd hs h.says_time
    | step => rfl
    | value hs' he' | sameAs hs' he' =>
      cases h.says_unique hs hs'
      cases he.symm.trans he'
  | sameAs hs he _ ih =>
    cases hy with
    | time => exact absurd hs h.says_time
    | value hs' he' | step hs' he' =>
      cases h.says_unique hs hs'
      cases he.symm.trans he'
    | sameAs hs' he' hother =>
      cases h.says_unique hs hs'
      cases he.symm.trans he'
      exact ih hother

/-! ## One course -/

theorem eq_none_of_solves (h : Compiled d names found m) (hσ : d.Solves spec σ) {n : String}
    (hn : n ∉ m.stateNames) : σ n = none := by
  by_cases hvar : n ∈ d.varNames
  · obtain ⟨s, hs, rfl⟩ := List.mem_map.mp hvar
    obtain ⟨v, _, _, hv, _⟩ := h.mem_found hs
    have hsaid : d.Says s.name v := ⟨s, hs, rfl, hv⟩
    cases hbody : v.isStockBody with
    | true => exact absurd (List.mem_cons_of_mem _ (List.mem_append_left _
        (h.rule_of_stock ⟨hsaid, hbody⟩))) hn
    | false =>
      rw [hσ.equations s.name v ⟨hsaid, hbody⟩]
      rcases h.rule_of_equation ⟨hsaid, hbody⟩ with hflow | ⟨_, hnone⟩
      · exact absurd (List.mem_cons_of_mem _ (List.mem_append_right _ hflow)) hn
      · exact hnone _
  · refine hσ.nothingElse n (fun htime => hn ?_) hvar
    rw [htime]
    exact List.mem_cons_self ..

/-- **The equations leave one state** for given time and stocks. -/
theorem solves_unique (h : Compiled d names found m) (hσ : d.Solves spec σ)
    (hσ' : d.Solves spec σ') (htime : σ timeName = σ' timeName)
    (hstocks : ∀ n ∈ ruleNames m.equations.stocks, σ n = σ' n) : σ = σ' := by
  have hrules : ∀ {τ : State}, d.Solves spec τ → ∀ r ∈ m.equations.flows,
      τ r.name = r.formula.value? (m.setting spec τ) := by
    intro τ hτ r hr
    obtain ⟨side, heq, hvalue⟩ := h.exists_equation hr
    rw [hτ.equations r.name side heq, hvalue]
  have hothers : ∀ n, n ∉ ruleNames m.equations.flows → σ n = σ' n := by
    intro n hn
    by_cases hstate : n ∈ m.stateNames
    · rcases List.mem_cons.mp hstate with rfl | hstate
      · exact htime
      · exact hstocks n ((List.mem_append.mp hstate).resolve_right hn)
    · rw [h.eq_none_of_solves hσ hstate, h.eq_none_of_solves hσ' hstate]
  -- what rules compute is settled by all else, since they can be worked off in order
  have hvalues : (m.setting spec σ).value = (m.setting spec σ').value :=
    h.sound.flows.values_unique rfl rfl rfl hothers (hrules hσ) (hrules hσ')
  exact hvalues

/-- **A model has one first state.** -/
theorem begins_unique (h : Compiled d names found m) (hσ : d.Begins spec σ)
    (hσ' : d.Begins spec σ') : σ = σ' := by
  refine h.solves_unique hσ.solves hσ'.solves (hσ.time.trans hσ'.time.symm) ?_
  intro n hn
  obtain ⟨r, hr, rfl⟩ := mem_ruleNames.mp hn
  obtain ⟨body, _, hstock, _⟩ := h.exists_stock hr
  obtain ⟨x, hx, hσx⟩ := hσ.stocks r.name body hstock
  obtain ⟨y, hy, hσy⟩ := hσ'.stocks r.name body hstock
  rw [hσx, hσy, h.startsAt_unique hx hy]

/-- **A model has one state after each.** -/
theorem follows_unique (h : Compiled d names found m) {τ : State} (hσ : d.Follows spec τ σ)
    (hσ' : d.Follows spec τ σ') : σ = σ' := by
  refine h.solves_unique hσ.solves hσ'.solves ?_ ?_
  · obtain ⟨t, ht, hσt⟩ := hσ.time
    obtain ⟨t', ht', hσt'⟩ := hσ'.time
    cases ht.symm.trans ht'
    exact hσt.trans hσt'.symm
  · intro n hn
    obtain ⟨r, hr, rfl⟩ := mem_ruleNames.mp hn
    obtain ⟨body, _, hstock, _⟩ := h.exists_stock hr
    obtain ⟨x, net, hx, hnet, hσx⟩ := hσ.stocks r.name body hstock
    obtain ⟨y, net', hy, hnet', hσy⟩ := hσ'.stocks r.name body hstock
    cases hx.symm.trans hy
    cases hnet.symm.trans hnet'
    exact hσx.trans hσy.symm

/-- **A model has one course.** -/
theorem course_unique (h : Compiled d names found m) {ρ ρ' : Nat → State}
    (hρ : d.Course spec ρ) (hρ' : d.Course spec ρ') : ρ = ρ' := by
  funext k
  induction k with
  | zero => exact h.begins_unique hρ.first hρ'.first
  | succ k ih =>
    have hnext := hρ'.next k
    rw [← ih] at hnext
    exact h.follows_unique (hρ.next k) hnext

end Compiled

end StockFlow
