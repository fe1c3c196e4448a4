import StockFlow.Engine.Sim
import StockFlow.Proofs.Engine.Board
import StockFlow.Proofs.Equation.InOrder

/-!
# What a simulation computes

* `Sim.Evaluated` — all that computing a formula can give: its value in the setting of the
  simulation, an unknown name if it has none, or the fault of a board that is closed
* `Sim.asked_eq_nil_of_eval` — on a closed board only formulas that ask for no default have a value
* `Sim.apply_ok` — rules in order that get through are fulfilled, and nothing else is changed
* `Sim.apply_cases` — where all that rules read is there, only a closed board can stop them
* `Sim.evalAll_ok`, `Sim.evalAll_isOk` — the same for rules that all see the present state
-/

namespace StockFlow.Sim

variable {α : Type}

/-- What a simulation with its board answers to a formula. -/
def setting (s : Sim α) (b : Board α) : Setting α where
  value n := s.values[n]?
  default := b.lookup s.id s.model.defaults
  table n := s.model.equations.tables[n]?
  dt := s.spec.dt

theorem setting_of_spent (s : Sim α) {b b' : Board α} (h : b.Spent b') :
    s.setting b' = s.setting b := by
  unfold setting
  congr 1
  exact funext fun n => h.lookup_eq _ _ n

/-- A simulation with other present values. -/
def withValues (s : Sim α) (v : Values α) : Sim α := { s with values := v }

@[simp] theorem withValues_values (s : Sim α) (v : Values α) : (s.withValues v).values = v := rfl

@[simp] theorem withValues_model (s : Sim α) (v : Values α) :
    (s.withValues v).model = s.model := rfl

@[simp] theorem withValues_withValues (s : Sim α) (v v' : Values α) :
    (s.withValues v).withValues v' = s.withValues v' := rfl

theorem getElem?_insert_values (v : Values α) (n m : String) (x : α) :
    (v.insert n x)[m]? = if n = m then some x else v[m]? := by
  rw [Std.TreeMap.getElem?_insert]
  simp only [Std.LawfulEqCmp.compare_eq_iff_eq]

theorem getElem?_assign_self (s : Sim α) (n : String) (x : α) :
    (s.assign n x).values[n]? = some x := by
  show (s.values.insert n x)[n]? = some x
  rw [getElem?_insert_values, if_pos rfl]

theorem getElem?_assign_of_ne (s : Sim α) {n m : String} (x : α) (h : n ≠ m) :
    (s.assign n x).values[m]? = s.values[m]? := by
  show (s.values.insert n x)[m]? = s.values[m]?
  rw [getElem?_insert_values, if_neg h]

/-- Names that rules leave alone keep their values if those after the first leave them alone. -/
theorem getElem?_of_assign {s : Sim α} {r : Rule α} {rules : List (Rule α)} {x : α} {v : Values α}
    (h : ∀ n, n ∉ ruleNames rules → v[n]? = (s.assign r.name x).values[n]?) :
    ∀ n, n ∉ ruleNames (r :: rules) → v[n]? = s.values[n]? := by
  intro n hn
  obtain ⟨hne, hn'⟩ := not_mem_ruleNames_cons.mp hn
  rw [h n hn', getElem?_assign_of_ne s x (Ne.symm hne)]

variable [Scalar α]

/-! ## One formula -/

/-- All that computing a formula can give. -/
inductive Evaluated (s : Sim α) (f : Formula α) (b : Board α) :
    Except RunFault α × Board α → Prop
  | value {x : α} {b' : Board α} (h : f.value? (s.setting b) = some x) (spent : b.Spent b') :
      Evaluated s f b (.ok x, b')
  | unknown {n : String} {b' : Board α} (h : f.value? (s.setting b) = none) (spent : b.Spent b') :
      Evaluated s f b (.error (.unknownVariable s.label n), b')
  | stopped {n : String} {b' : Board α} (closed : b'.isOpen = false) (spent : b.Spent b')
      (asks : f.asked ≠ []) : Evaluated s f b (.error (.stopped n), b')

/-- **Computing a formula gives its value in the setting of the simulation,** an unknown name if it
has none, or the fault of a closed board. -/
theorem evaluated_eval (s : Sim α) (f : Formula α) (b : Board α) :
    Evaluated s f b (s.eval f b) := by
  induction f generalizing b with
  | const x => exact .value rfl (.refl b)
  | dt => exact .value rfl (.refl b)
  | pi => exact .value rfl (.refl b)
  | var n =>
    rw [eval, Sim.value]
    cases hv : s.values[n]? with
    | some x => exact .value hv (.refl b)
    | none => exact .unknown hv (.refl b)
  | default n =>
    rw [eval, Board.get_eq]
    cases hopen : b.isOpen with
    | false => exact .stopped hopen (.refl b) (by simp [Formula.asked])
    | true =>
      cases hv : b.lookup s.id s.model.defaults n with
      | some x => exact .value hv (.tick b)
      | none => exact .unknown hv (.tick b)
  | negate x ih =>
    rw [eval]
    cases hx : s.eval x b with | mk r b' =>
    cases hx ▸ ih b with
    | value h spent => exact .value (by simp [Formula.value?, h]) spent
    | unknown h spent => exact .unknown (by simp [Formula.value?, h]) spent
    | stopped closed spent asks => exact .stopped closed spent asks
  | apply1 f x ih =>
    rw [eval]
    cases hx : s.eval x b with | mk r b' =>
    cases hx ▸ ih b with
    | value h spent => exact .value (by simp [Formula.value?, h]) spent
    | unknown h spent => exact .unknown (by simp [Formula.value?, h]) spent
    | stopped closed spent asks => exact .stopped closed spent asks
  | lookup t x ih =>
    rw [eval]
    cases hx : s.eval x b with | mk r b' =>
    cases hx ▸ ih b with
    | value h spent =>
      simp only
      cases ht : s.model.equations.tables[t]? with
      | some table =>
        have hw : (s.setting b).table t = some table := ht
        exact .value (by simp [Formula.value?, h, hw]) spent
      | none =>
        have hw : (s.setting b).table t = none := ht
        exact .unknown (by simp [Formula.value?, h, hw]) spent
    | unknown h spent => exact .unknown (by simp [Formula.value?, h]) spent
    | stopped closed spent asks => exact .stopped closed spent asks
  | binary op x y ihx ihy | apply2 f x y ihx ihy =>
    rw [eval]
    cases hx : s.eval x b with | mk r b' =>
    cases hx ▸ ihx b with
    | unknown h spent => exact .unknown (by simp [Formula.value?, h]) spent
    | stopped closed spent asks =>
      exact .stopped closed spent (List.append_ne_nil_of_left_ne_nil asks _)
    | value h spent =>
      simp only
      cases hy : s.eval y b' with | mk r' b'' =>
      have hy' := hy ▸ ihy b'
      cases hy' with
      | value h' spent' =>
        rw [s.setting_of_spent spent] at h'
        exact .value (by simp [Formula.value?, h, h']) (spent.trans spent')
      | unknown h' spent' =>
        rw [s.setting_of_spent spent] at h'
        exact .unknown (by simp [Formula.value?, h, h']) (spent.trans spent')
      | stopped closed spent' asks =>
        exact .stopped closed (spent.trans spent') (List.append_ne_nil_of_right_ne_nil _ asks)

/-- Computing a formula writes nothing on the board. -/
theorem spent_eval {s : Sim α} {f : Formula α} {b b' : Board α} {res : Except RunFault α}
    (h : s.eval f b = (res, b')) : b.Spent b' := by
  cases h ▸ evaluated_eval s f b with
  | value _ spent => exact spent
  | unknown _ spent => exact spent
  | stopped _ spent _ => exact spent

/-- **On a closed board only formulas that ask for no default have a value.** -/
theorem asked_eq_nil_of_eval {s : Sim α} {f : Formula α} {b b' : Board α} {x : α}
    (hb : b.isOpen = false) (h : s.eval f b = (.ok x, b')) : f.asked = [] := by
  induction f generalizing b b' x with
  | const _ | dt | pi | var _ => rfl
  | default n =>
    rw [eval, Board.get_eq, hb] at h
    cases h
  | negate y ih | apply1 _ y ih | lookup _ y ih =>
    rw [eval] at h
    cases hy : s.eval y b with | mk r b₁ =>
    cases r with
    | ok v => exact ih hb hy
    | error e => rw [hy] at h; cases h
  | binary _ y z ihy ihz | apply2 _ y z ihy ihz =>
    rw [eval] at h
    cases hy : s.eval y b with | mk r b₁ =>
    cases r with
    | error e => rw [hy] at h; cases h
    | ok v =>
      rw [hy] at h
      simp only at h
      cases hz : s.eval z b₁ with | mk r' b₂ =>
      cases r' with
      | error e => rw [hz] at h; cases h
      | ok u =>
        have hspent := spent_eval hy
        rw [Formula.asked, ihy hb hy, ihz (hspent.isOpen_eq_false hb) hz, List.append_nil]

/-! ## Rules in order -/

/-- Values in which some rules are fulfilled while all else is as in the simulation. -/
structure Fulfils (s : Sim α) (b : Board α) (rules : List (Rule α)) (v : Values α) : Prop where
  others : ∀ n, n ∉ ruleNames rules → v[n]? = s.values[n]?
  rules : ∀ r ∈ rules, ∃ x, v[r.name]? = some x ∧
    r.formula.value? ((s.withValues v).setting b) = some x

/-- **Rules in order that get through are fulfilled,** and nothing else is changed. -/
theorem apply_ok {rules : List (Rule α)} (ho : InOrder rules) {s : Sim α} {b : Board α}
    (h : (s.apply b rules).fault = none) :
    ∃ v, (s.apply b rules).sim = s.withValues v ∧ b.Spent (s.apply b rules).board ∧
      s.Fulfils b rules v := by
  induction ho generalizing s b with
  | nil => exact ⟨s.values, rfl, .refl b, fun _ _ => rfl, by simp⟩
  | @cons r rules honce hreads hrest ih =>
    rw [apply] at h ⊢
    cases hr : s.eval r.formula b with | mk res b₁ =>
    cases res with
    | error e => rw [hr] at h; cases h
    | ok x =>
      rw [hr] at h
      simp only at h ⊢
      obtain ⟨v, hsim, hspent, hothers, hrules⟩ := ih h
      cases hr ▸ evaluated_eval s r.formula b with
      | value hx hspent₁ =>
        have hown : v[r.name]? = some x := by
          rw [hothers r.name honce, getElem?_assign_self]
        have hkept : ∀ n, n ∉ ruleNames (r :: rules) → v[n]? = s.values[n]? :=
          getElem?_of_assign hothers
        refine ⟨v, hsim, hspent₁.trans hspent, hkept, ?_⟩
        intro q hq
        rcases List.mem_cons.mp hq with rfl | hlater
        · -- what the rule reads is not computed by it or later, so it has not changed since
          refine ⟨x, hown, ?_⟩
          rw [← hx]
          exact Formula.value?_congr (fun n hn => hkept n (hreads n hn)) (fun _ _ => rfl)
            (fun _ _ => rfl) rfl
        · obtain ⟨y, hy, hval⟩ := hrules q hlater
          rw [setting_of_spent _ hspent₁] at hval
          exact ⟨y, hy, hval⟩

/-- All that a formula mentions is there, apart from names that are being computed. -/
structure Supplies (s : Sim α) (b : Board α) (computed : List String) (f : Formula α) : Prop where
  vars : ∀ n ∈ f.vars, n ∈ computed ∨ (s.values[n]?).isSome
  asked : ∀ n ∈ f.asked, (b.lookup s.id s.model.defaults n).isSome
  tables : ∀ n ∈ f.tables, (s.model.equations.tables[n]?).isSome

theorem Supplies.isSome_value? {s : Sim α} {b : Board α} {computed : List String}
    {f : Formula α} (h : s.Supplies b computed f) (hnot : ∀ n ∈ f.vars, n ∉ computed) :
    (f.value? (s.setting b)).isSome :=
  Formula.isSome_value? (fun n hn => (h.vars n hn).resolve_left (hnot n hn)) h.asked h.tables

/-- How work on rules is cut short: the board closed under a rule that asks for a default, and that
rule computed nothing. -/
structure CutShort (s : Sim α) (b : Board α) (rules : List (Rule α)) (r : Reached α) : Prop where
  fault : ∃ n, r.fault = some (.stopped n)
  closed : r.board.isOpen = false
  spent : b.Spent r.board
  rest : ∃ v, r.sim = s.withValues v ∧ (∀ n, n ∉ ruleNames rules → v[n]? = s.values[n]?) ∧
    ∃ q ∈ rules, q.formula.asked ≠ [] ∧ v[q.name]? = s.values[q.name]?

/-- **Where all that rules read is there, only a closed board can stop them.** -/
theorem apply_cases {rules : List (Rule α)} (ho : InOrder rules) {s : Sim α} {b : Board α}
    (hs : ∀ r ∈ rules, s.Supplies b (ruleNames rules) r.formula) :
    (s.apply b rules).fault = none ∨ CutShort s b rules (s.apply b rules) := by
  induction ho generalizing s b with
  | nil => exact Or.inl rfl
  | @cons r rules honce hreads hrest ih =>
    have hsome := (hs r (List.mem_cons_self ..)).isSome_value? hreads
    rw [apply]
    cases hr : s.eval r.formula b with | mk res b₁ =>
    cases hr ▸ evaluated_eval s r.formula b with
    | unknown h _ => rw [h] at hsome; cases hsome
    | stopped closed spent asks =>
      exact Or.inr ⟨⟨_, rfl⟩, closed, spent, s.values, rfl, fun _ _ => rfl,
        r, List.mem_cons_self .., asks, rfl⟩
    | @value x _ hx spent =>
      have hs' : ∀ q ∈ rules, (s.assign r.name x).Supplies b₁ (ruleNames rules) q.formula := by
        intro q hq
        obtain ⟨hvars, hasked, htables⟩ := hs q (List.mem_cons_of_mem _ hq)
        refine ⟨?_, ?_, htables⟩
        · intro n hn
          by_cases he : r.name = n
          · subst he
            exact Or.inr (by rw [getElem?_assign_self]; rfl)
          · rcases hvars n hn with hmem | hv
            · exact Or.inl ((List.mem_cons.mp hmem).resolve_left (Ne.symm he))
            · exact Or.inr (by rw [getElem?_assign_of_ne s x he]; exact hv)
        · intro n hn
          rw [spent.lookup_eq]
          exact hasked n hn
      rcases ih hs' with hok | ⟨hfault, hclosed, hspent, v, hsim, hothers, q, hq, hasks, hkept⟩
      · exact Or.inl hok
      · have hne : r.name ≠ q.name := fun he => honce (he ▸ name_mem_ruleNames hq)
        rw [getElem?_assign_of_ne s x hne] at hkept
        exact Or.inr ⟨hfault, hclosed, spent.trans hspent, v, hsim, getElem?_of_assign hothers, q,
          List.mem_cons_of_mem _ hq, hasks, hkept⟩

/-- Rules change their own values and nothing else. -/
theorem apply_sim (s : Sim α) (b : Board α) (rules : List (Rule α)) :
    ∃ v, (s.apply b rules).sim = s.withValues v ∧
      ∀ n, n ∉ ruleNames rules → v[n]? = s.values[n]? := by
  induction rules generalizing s b with
  | nil => exact ⟨s.values, rfl, fun _ _ => rfl⟩
  | cons r rules ih =>
    rw [apply]
    cases hr : s.eval r.formula b with | mk res b₁ =>
    cases res with
    | error e => exact ⟨s.values, rfl, fun _ _ => rfl⟩
    | ok x =>
      obtain ⟨v, hv, hothers⟩ := ih (s.assign r.name x) b₁
      exact ⟨v, hv, getElem?_of_assign hothers⟩

theorem spent_apply (s : Sim α) (b : Board α) (rules : List (Rule α)) :
    b.Spent (s.apply b rules).board := by
  induction rules generalizing s b with
  | nil => exact .refl b
  | cons r rules ih =>
    rw [apply]
    cases hr : s.eval r.formula b with | mk res b₁ =>
    cases res with
    | error e => exact spent_eval hr
    | ok x => exact (spent_eval hr).trans (ih (s.assign r.name x) b₁)

/-- **On a closed board rules stop at the latest where one asks for a default,** and that one
computes nothing. -/
theorem apply_closed {rules : List (Rule α)} (hnd : (ruleNames rules).Nodup) {s : Sim α}
    {b : Board α} (hb : b.isOpen = false) {q : Rule α} (hq : q ∈ rules)
    (hasks : q.formula.asked ≠ []) :
    (s.apply b rules).fault ≠ none ∧ (s.apply b rules).board.isOpen = false ∧
      (s.apply b rules).sim.values[q.name]? = s.values[q.name]? := by
  induction rules generalizing s b with
  | nil => cases hq
  | cons r rules ih =>
    obtain ⟨honce, hnd'⟩ := List.nodup_cons.mp hnd
    rw [apply]
    cases hr : s.eval r.formula b with | mk res b₁ =>
    have hclosed := (spent_eval hr).isOpen_eq_false hb
    cases res with
    | error e => exact ⟨nofun, hclosed, rfl⟩
    | ok x =>
      rcases List.mem_cons.mp hq with rfl | hlater
      · exact absurd (asked_eq_nil_of_eval hb hr) hasks
      · obtain ⟨hfault, hboard, hvalue⟩ := ih (s := s.assign r.name x) hnd' hclosed hlater
        have hne : r.name ≠ q.name := fun he => honce (he ▸ name_mem_ruleNames hlater)
        refine ⟨hfault, hboard, ?_⟩
        rw [hvalue, getElem?_assign_of_ne s x hne]

/-! ## Rules that all see the present state -/

/-- **Rules that all see the present state and get through give what they stand for,** and nothing
else is changed. -/
theorem evalAll_ok {rules : List (Rule α)} (hnd : (ruleNames rules).Nodup) {s : Sim α}
    {b b' : Board α} {found v : Values α} (h : s.evalAll b found rules = (.ok v, b')) :
    b.Spent b' ∧ (∀ n, n ∉ ruleNames rules → v[n]? = found[n]?) ∧
      ∀ r ∈ rules, ∃ x, v[r.name]? = some x ∧ r.formula.value? (s.setting b) = some x := by
  induction rules generalizing b found with
  | nil =>
    cases h
    exact ⟨.refl _, fun _ _ => rfl, by simp⟩
  | cons r rules ih =>
    obtain ⟨honce, hnd'⟩ := List.nodup_cons.mp hnd
    rw [evalAll] at h
    cases hr : s.eval r.formula b with | mk res b₁ =>
    cases res with
    | error e => rw [hr] at h; cases h
    | ok x =>
      rw [hr] at h
      obtain ⟨hspent, hothers, hrules⟩ := ih hnd' h
      cases hr ▸ evaluated_eval s r.formula b with
      | value hx hspent₁ =>
        refine ⟨hspent₁.trans hspent, ?_, ?_⟩
        · intro n hn
          obtain ⟨hne, hn'⟩ := not_mem_ruleNames_cons.mp hn
          rw [hothers n hn', getElem?_insert_values, if_neg (Ne.symm hne)]
        · intro q hq
          rcases List.mem_cons.mp hq with rfl | hlater
          · exact ⟨x, by rw [hothers q.name honce, getElem?_insert_values, if_pos rfl], hx⟩
          · obtain ⟨y, hy, hval⟩ := hrules q hlater
            rw [setting_of_spent _ hspent₁] at hval
            exact ⟨y, hy, hval⟩

theorem evalAll_spent (s : Sim α) (b : Board α) (found : Values α) (rules : List (Rule α)) :
    b.Spent (s.evalAll b found rules).2 := by
  induction rules generalizing b found with
  | nil => exact .refl b
  | cons r rules ih =>
    rw [evalAll]
    cases hr : s.eval r.formula b with | mk res b₁ =>
    cases res with
    | error e => exact spent_eval hr
    | ok x => exact (spent_eval hr).trans (ih b₁ _)

/-- **Where all that rules read is there and none asks for a default, they get through.** -/
theorem evalAll_isOk {rules : List (Rule α)} {s : Sim α} {b : Board α}
    (hs : ∀ r ∈ rules, s.Supplies b [] r.formula) (hasked : ∀ r ∈ rules, r.formula.asked = [])
    (found : Values α) : ∃ v b', s.evalAll b found rules = (.ok v, b') := by
  induction rules generalizing b found with
  | nil => exact ⟨found, b, rfl⟩
  | cons r rules ih =>
    have hsome := (hs r (List.mem_cons_self ..)).isSome_value? (by simp)
    rw [evalAll]
    cases hr : s.eval r.formula b with | mk res b₁ =>
    cases hr ▸ evaluated_eval s r.formula b with
    | unknown h _ => rw [h] at hsome; cases hsome
    | stopped _ _ asks => exact absurd (hasked r (List.mem_cons_self ..)) asks
    | value hx spent =>
      refine ih ?_ (fun q hq => hasked q (List.mem_cons_of_mem _ hq)) _
      intro q hq
      obtain ⟨hvars, hask, htables⟩ := hs q (List.mem_cons_of_mem _ hq)
      exact ⟨hvars, fun n hn => by rw [spent.lookup_eq]; exact hask n hn, htables⟩

end StockFlow.Sim
