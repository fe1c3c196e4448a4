import StockFlow.Equation.Synthesis
import StockFlow.Proofs.Answer
import StockFlow.Proofs.Equation.Evaluation
import StockFlow.Proofs.Graph.Order

/-!
# Rules that can be worked off in order

* `InOrder` — no rule reads what it computes itself or what is computed after it
* `InOrder.induction` — what rules hand on from what they read holds of all that they compute
* `InOrder.values_unique` — rules in order have at most one solution
* `inOrder_of_orderRules` — rules that are put in order are in order, in that of their names
* `orderRules_ok` — putting rules in order gives the same rules, in order
* `orderRules_isOk_of_perm` — if that succeeds, it does so in whatever order the rules are given
-/

namespace StockFlow

/-! ## Rules in order -/

variable {α : Type}

/-- The names that some rules compute. -/
def ruleNames (rules : List (Rule α)) : List String := rules.map Rule.name

theorem mem_ruleNames {rules : List (Rule α)} {n : String} :
    n ∈ ruleNames rules ↔ ∃ r ∈ rules, r.name = n := List.mem_map

theorem name_mem_ruleNames {rules : List (Rule α)} {r : Rule α} (hr : r ∈ rules) :
    r.name ∈ ruleNames rules := List.mem_map_of_mem hr

theorem not_mem_ruleNames_cons {r : Rule α} {rules : List (Rule α)} {n : String} :
    n ∉ ruleNames (r :: rules) ↔ n ≠ r.name ∧ n ∉ ruleNames rules := by
  simp only [ruleNames, List.map_cons, List.mem_cons, not_or]

/-- Rules that compute each name once, and read nothing that they or later ones compute. -/
inductive InOrder : List (Rule α) → Prop
  | nil : InOrder []
  | cons {r : Rule α} {rules : List (Rule α)} (once : r.name ∉ ruleNames rules)
      (reads : ∀ n ∈ r.formula.vars, n ∉ ruleNames (r :: rules)) (rest : InOrder rules) :
      InOrder (r :: rules)

theorem InOrder.nodup {rules : List (Rule α)} (h : InOrder rules) : (ruleNames rules).Nodup := by
  induction h with
  | nil => exact List.nodup_nil
  | cons honce _ _ ih => exact List.nodup_cons.mpr ⟨honce, ih⟩

/-- **What a rule hands on from the names it reads to the name it computes holds of all names that
rules in order compute,** if it holds of the others that they read. -/
theorem InOrder.induction {rules : List (Rule α)} (h : InOrder rules) {P : String → Prop}
    (others : ∀ r ∈ rules, ∀ n ∈ r.formula.vars, n ∉ ruleNames rules → P n)
    (step : ∀ r ∈ rules, (∀ n ∈ r.formula.vars, P n) → P r.name) : ∀ r ∈ rules, P r.name := by
  induction h with
  | nil => exact nofun
  | @cons r rules _ hreads _ ih =>
    have hfirst : P r.name := step r (List.mem_cons_self ..) fun n hn =>
      others r (List.mem_cons_self ..) n hn (hreads n hn)
    refine List.forall_mem_cons.mpr ⟨hfirst, ih ?_ ?_⟩
    · intro q hq n hn hnot
      by_cases he : n = r.name
      · exact he ▸ hfirst
      · exact others q (List.mem_cons_of_mem _ hq) n hn
          (not_mem_ruleNames_cons.mpr ⟨he, hnot⟩)
    · intro q hq
      exact step q (List.mem_cons_of_mem _ hq)

/-- **Rules in order have at most one solution:** two assignments that agree on all other names and
that both fulfil the rules are the same. -/
theorem InOrder.values_unique [Scalar α] {rules : List (Rule α)} (h : InOrder rules)
    {w w' : Setting α} (hdefault : w.default = w'.default) (htable : w.table = w'.table)
    (hdt : w.dt = w'.dt) (hothers : ∀ n, n ∉ ruleNames rules → w.value n = w'.value n)
    (hw : ∀ r ∈ rules, w.value r.name = r.formula.value? w)
    (hw' : ∀ r ∈ rules, w'.value r.name = r.formula.value? w') : w.value = w'.value := by
  induction h with
  | nil => exact funext fun n => hothers n (by simp [ruleNames])
  | @cons r rules _ hreads _ ih =>
    refine ih ?_ (fun q hq => hw q (by simp [hq])) (fun q hq => hw' q (by simp [hq]))
    intro n hn
    by_cases he : n = r.name
    · rw [he, hw r (by simp), hw' r (by simp)]
      exact Formula.value?_congr (fun m hm => hothers m (hreads m hm))
        (fun m _ => congrFun hdefault m) (fun m _ => congrFun htable m) hdt
    · exact hothers n (by simpa [ruleNames, he] using hn)

/-! ## Putting rules in order -/

/-- The rule of a name. -/
def ruleNamed (rules : List (Rule α)) (n : String) : Option (Rule α) :=
  rules.find? fun r => r.name = n

/-- What the rule of a name reads. -/
def ruleReads (rules : List (Rule α)) (n : String) : List String :=
  ((ruleNamed rules n).map fun r => r.formula.reads).getD []

theorem ruleNamed_of_mem {rules : List (Rule α)} (hnd : (ruleNames rules).Nodup) {r : Rule α}
    (hr : r ∈ rules) : ruleNamed rules r.name = some r :=
  find?_eq_of_nodup_map hnd hr

theorem mem_of_ruleNamed {rules : List (Rule α)} {n : String} {r : Rule α}
    (h : ruleNamed rules n = some r) : r ∈ rules ∧ r.name = n :=
  ⟨List.mem_of_find?_eq_some h, by simpa using List.find?_some h⟩

theorem mem_ruleReads {rules : List (Rule α)} {n d : String} {r : Rule α}
    (h : ruleNamed rules n = some r) : d ∈ ruleReads rules n ↔ d ∈ r.formula.vars := by
  rw [ruleReads, h, Option.map_some, Option.getD_some]
  exact Formula.mem_reads

/-- Rules found for names of which none reads itself or a later one are in order. -/
theorem inOrder_filterMap_ruleNamed {rules : List (Rule α)} (hnd : (ruleNames rules).Nodup) :
    ∀ {names : List String}, names.Nodup → names ⊆ ruleNames rules →
      (∀ n ∈ names, n ∉ ruleReads rules n) →
      names.Pairwise (fun earlier later => later ∉ ruleReads rules earlier) →
      InOrder (names.filterMap (ruleNamed rules)) ∧
        ruleNames (names.filterMap (ruleNamed rules)) = names
  | [], _, _, _, _ => ⟨.nil, rfl⟩
  | n :: names, hnames, hsub, hself, hlater => by
    obtain ⟨hnew, hnames'⟩ := List.nodup_cons.mp hnames
    obtain ⟨hfirst, hlater'⟩ := List.pairwise_cons.mp hlater
    obtain ⟨hrest, heq⟩ := inOrder_filterMap_ruleNamed hnd hnames'
      (fun m hm => hsub (List.mem_cons_of_mem _ hm)) (fun m hm => hself m (by simp [hm])) hlater'
    obtain ⟨r, hr, rfl⟩ := mem_ruleNames.mp (hsub (List.mem_cons_self ..))
    have hfind := ruleNamed_of_mem hnd hr
    rw [List.filterMap_cons_some hfind]
    refine ⟨.cons (heq.symm ▸ hnew) ?_ hrest, congrArg (r.name :: ·) heq⟩
    intro d hd hmem
    have hreads := (mem_ruleReads hfind).mpr hd
    rcases List.mem_cons.mp hmem with he | hin
    · exact hself r.name (by simp) (he ▸ hreads)
    · exact hfirst d (heq ▸ hin) hreads

theorem orderRules_eq (rules : List (Rule Float)) :
    orderRules rules = (Graph.order (ruleReads rules) (ruleNames rules)).bind
      fun names => .ok (names.filterMap (ruleNamed rules)) := rfl

/-- Rules that are put in order are found by their names, which are put in order by what the rules
read. -/
theorem inOrder_of_orderRules {rules out : List (Rule Float)} (hnd : (ruleNames rules).Nodup)
    (h : orderRules rules = .ok out) : InOrder out ∧
      Graph.order (ruleReads rules) (ruleNames rules) = .ok (ruleNames out) ∧
      out = (ruleNames out).filterMap (ruleNamed rules) := by
  rw [orderRules_eq] at h
  cases hn : Graph.order (ruleReads rules) (ruleNames rules) with
  | error n => rw [hn] at h; cases h
  | ok names =>
    rw [hn] at h
    cases h
    obtain ⟨hlaid, -⟩ := Graph.order_laid hn
    obtain ⟨hin, hnames⟩ := inOrder_filterMap_ruleNamed hnd hlaid.nodup hlaid.subset
      (fun n hn => hlaid.not_dependsOn_self hn) hlaid.not_dependsOn_later
    rw [hnames]
    exact ⟨hin, rfl, rfl⟩

/-- **Putting rules in order gives the same rules, in order.** -/
theorem orderRules_ok {rules out : List (Rule Float)} (hnd : (ruleNames rules).Nodup)
    (h : orderRules rules = .ok out) : InOrder out ∧ out.Perm rules := by
  obtain ⟨hin, hn, hout⟩ := inOrder_of_orderRules hnd h
  refine ⟨hin, (List.perm_ext_iff_of_nodup hin.nodup.of_map hnd.of_map).mpr ?_⟩
  intro r
  rw [hout]
  constructor
  · intro hr
    obtain ⟨n, _, hfind⟩ := List.mem_filterMap.mp hr
    exact (mem_of_ruleNamed hfind).1
  · intro hr
    exact List.mem_filterMap.mpr ⟨r.name, ((Graph.order_laid hn).2 r.name).mpr
      (name_mem_ruleNames hr), ruleNamed_of_mem hnd hr⟩

/-- **If rules can be put in order, they can in whatever order they are given.** -/
theorem orderRules_isOk_of_perm {rules rules' out : List (Rule Float)}
    (hnd : (ruleNames rules).Nodup) (hperm : rules'.Perm rules) (h : orderRules rules = .ok out) :
    ∃ out', orderRules rules' = .ok out' := by
  have hreads : ruleReads rules' = ruleReads rules := by
    funext n
    unfold ruleReads ruleNamed
    rw [find?_eq_of_perm hnd hperm]
  have hmem : ∀ n, n ∈ ruleNames rules' ↔ n ∈ ruleNames rules := fun n =>
    (hperm.map Rule.name).mem_iff
  obtain ⟨names', hn'⟩ := Graph.order_isOk_of_laid (inOrder_of_orderRules hnd h).2.1 hmem
  rw [orderRules_eq, hreads, hn']
  exact ⟨_, rfl⟩

end StockFlow
