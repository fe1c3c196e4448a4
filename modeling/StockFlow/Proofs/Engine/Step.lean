import StockFlow.Proofs.Engine.Evaluation

/-!
# What a step does

* `Model.Sound` — models whose rules find all that they read
* `Sim.Settled` — simulations in which every variable of a state has a value
* `Sim.start_ok`, `Sim.advance_ok` — what starting and stepping give where they get through
* `Sim.start_cases`, `Sim.advance_cases` — from a sound beginning only a closed board stops them
-/

namespace StockFlow

variable {α : Type}

/-! ## Sound models -/

/-- The names that have a value in every state: the time, the stocks and all that is computed at
each step. -/
def Model.stateNames (m : Model α) : List String :=
  timeName :: (ruleNames m.equations.stocks ++ ruleNames m.equations.flows)

/-- A model whose rules, worked off in their order, find all that they read. Starting values come
from the time and from one another; all else comes from the names of a state. A default is only
asked for by a rule of its own, whose value is recorded. -/
structure Model.Sound (m : Model α) : Prop where
  initials : InOrder m.equations.initials
  flows : InOrder m.equations.flows
  distinct : m.stateNames.Nodup
  initials_names : ruleNames m.equations.initials ⊆
    ruleNames m.equations.stocks ++ ruleNames m.equations.flows
  started : ruleNames m.equations.stocks ⊆ ruleNames m.equations.initials
  initials_vars : ∀ r ∈ m.equations.initials, ∀ n ∈ r.formula.vars,
    n = timeName ∨ n ∈ ruleNames m.equations.initials
  initials_asked : ∀ r ∈ m.equations.initials, r.formula.asked = []
  initials_tables : ∀ r ∈ m.equations.initials, r.formula.tables = []
  vars : ∀ r ∈ m.equations.stocks ++ m.equations.flows, r.formula.vars ⊆ m.stateNames
  tables : ∀ r ∈ m.equations.stocks ++ m.equations.flows, ∀ n ∈ r.formula.tables,
    (m.equations.tables[n]?).isSome
  stocks_asked : ∀ r ∈ m.equations.stocks, r.formula.asked = []
  flows_asked : ∀ r ∈ m.equations.flows, r.formula.asked ≠ [] →
    r.formula = .default r.name ∧ (m.defaults[r.name]?).isSome ∧ r.name ∈ m.recorded
  recorded : m.recorded ⊆ m.stateNames

namespace Model.Sound

variable {m : Model α}

theorem stocks_nodup (h : m.Sound) : (ruleNames m.equations.stocks).Nodup :=
  (List.nodup_append.mp (List.nodup_cons.mp h.distinct).2).1

theorem time_not_mem (h : m.Sound) :
    timeName ∉ ruleNames m.equations.stocks ++ ruleNames m.equations.flows :=
  (List.nodup_cons.mp h.distinct).1

theorem time_not_stock (h : m.Sound) : timeName ∉ ruleNames m.equations.stocks := fun hn =>
  h.time_not_mem (List.mem_append_left _ hn)

theorem time_not_flow (h : m.Sound) : timeName ∉ ruleNames m.equations.flows := fun hn =>
  h.time_not_mem (List.mem_append_right _ hn)

theorem time_not_initial (h : m.Sound) : timeName ∉ ruleNames m.equations.initials := fun hn =>
  h.time_not_mem (h.initials_names hn)

theorem flow_not_stock (h : m.Sound) {n : String} (hn : n ∈ ruleNames m.equations.flows) :
    n ∉ ruleNames m.equations.stocks := fun hs =>
  (List.nodup_append.mp (List.nodup_cons.mp h.distinct).2).2.2 n hs n hn rfl

/-- Whatever a step asks for, the board has a value. -/
theorem isSome_lookup (h : m.Sound) {r : Rule α} (hr : r ∈ m.equations.flows) (b : Board α)
    (sim : SimId) {n : String} (hn : n ∈ r.formula.asked) : (b.lookup sim m.defaults n).isSome := by
  obtain ⟨hform, hdef, _⟩ := h.flows_asked r hr (List.ne_nil_of_mem hn)
  rw [hform, Formula.asked, List.mem_singleton] at hn
  rw [hn, Board.lookup, Option.orElse_eq_orElse, Option.orElse_eq_or, Option.isSome_or, hdef,
    Bool.or_true]

end Model.Sound

namespace Reached

variable {r : Reached α} {next : Sim α → Board α → Reached α}

theorem andThen_of_ok (h : r.fault = none) : r.andThen next = next r.sim r.board := by
  rw [andThen, h]

theorem andThen_of_fault (h : r.fault ≠ none) : r.andThen next = r := by
  cases he : r.fault with
  | none => exact absurd he h
  | some e => rw [andThen, he]

/-- What got through to the end got through at first. -/
theorem ok_of_andThen (h : (r.andThen next).fault = none) : r.fault = none := by
  by_cases hr : r.fault = none
  · exact hr
  · rwa [andThen_of_fault hr] at h

end Reached

namespace Sim

/-! ## Frames -/

/-- The same simulation at another moment. -/
structure Continues (s s' : Sim α) : Prop where
  id : s'.id = s.id
  label : s'.label = s.label
  model : s'.model = s.model
  spec : s'.spec = s.spec
  saveEvery : s'.saveEvery = s.saveEvery
  names : s'.report.names = s.report.names

theorem Continues.refl (s : Sim α) : s.Continues s := ⟨rfl, rfl, rfl, rfl, rfl, rfl⟩

theorem Continues.trans {s s' s'' : Sim α} (h : s.Continues s') (h' : s'.Continues s'') :
    s.Continues s'' :=
  ⟨h'.id.trans h.id, h'.label.trans h.label, h'.model.trans h.model, h'.spec.trans h.spec,
    h'.saveEvery.trans h.saveEvery, h'.names.trans h.names⟩

theorem Continues.andThen {s : Sim α} {r : Reached α} {next : Sim α → Board α → Reached α}
    (h : s.Continues r.sim) (hnext : ∀ (s : Sim α) b, s.Continues (next s b).sim) :
    s.Continues (r.andThen next).sim := by
  by_cases hr : r.fault = none
  · rw [Reached.andThen_of_ok hr]
    exact h.trans (hnext r.sim r.board)
  · rwa [Reached.andThen_of_fault hr]

theorem spent_andThen {b : Board α} {r : Reached α}
    {next : Sim α → Board α → Reached α} (h : b.Spent r.board)
    (hnext : ∀ s b, Board.Spent b (next s b).board) : b.Spent (r.andThen next).board := by
  by_cases hr : r.fault = none
  · rw [Reached.andThen_of_ok hr]
    exact h.trans (hnext r.sim r.board)
  · rwa [Reached.andThen_of_fault hr]

/-- A simulation after its stocks and its time have moved and before all else is computed. -/
def moved [Scalar α] (s : Sim α) (stocks : Values α) : Sim α :=
  { s with values := stocks.insert timeName s.nextTime, step := s.step + 1 }

theorem getElem?_moved [Scalar α] (s : Sim α) (stocks : Values α) (n : String) :
    (s.moved stocks).values[n]? = if timeName = n then some s.nextTime else stocks[n]? :=
  getElem?_insert_values ..

/-- Every name of a state has a value. -/
def Settled (s : Sim α) : Prop := ∀ n ∈ s.model.stateNames, (s.values[n]?).isSome

/-- All that a step computes can be computed: whatever else a state has, is there. -/
def Prepared (s : Sim α) : Prop :=
  ∀ n ∈ s.model.stateNames, n ∉ ruleNames s.model.equations.flows → (s.values[n]?).isSome

theorem Settled.congr {s s' : Sim α} (hm : s'.model = s.model) (hv : s'.values = s.values)
    (h : s.Settled) : s'.Settled := by
  unfold Settled
  rw [hm, hv]
  exact h

/-! ## Rules find what they read -/

theorem supplies_initials {s : Sim α} (hm : s.model.Sound) (ht : (s.values[timeName]?).isSome)
    (b : Board α) : ∀ r ∈ s.model.equations.initials,
      s.Supplies b (ruleNames s.model.equations.initials) r.formula := by
  intro r hr
  refine ⟨?_, ?_, ?_⟩
  · intro n hn
    rcases hm.initials_vars r hr n hn with rfl | hmem
    · exact Or.inr ht
    · exact Or.inl hmem
  · intro n hn
    rw [hm.initials_asked r hr] at hn
    cases hn
  · intro n hn
    rw [hm.initials_tables r hr] at hn
    cases hn

theorem supplies_flows {s : Sim α} (hm : s.model.Sound) (hs : s.Prepared) (b : Board α) :
    ∀ r ∈ s.model.equations.flows,
      s.Supplies b (ruleNames s.model.equations.flows) r.formula := by
  intro r hr
  refine ⟨?_, fun n hn => hm.isSome_lookup hr b s.id hn,
    fun n hn => hm.tables r (List.mem_append_right _ hr) n hn⟩
  intro n hn
  by_cases hflow : n ∈ ruleNames s.model.equations.flows
  · exact Or.inl hflow
  · exact Or.inr (hs n (hm.vars r (List.mem_append_right _ hr) hn) hflow)

theorem supplies_stocks {s : Sim α} (hm : s.model.Sound) (hs : s.Settled) (b : Board α) :
    ∀ r ∈ s.model.equations.stocks, s.Supplies b [] r.formula := by
  intro r hr
  refine ⟨fun n hn => Or.inr (hs n (hm.vars r (List.mem_append_left _ hr) hn)), ?_,
    fun n hn => hm.tables r (List.mem_append_left _ hr) n hn⟩
  intro n hn
  rw [hm.stocks_asked r hr] at hn
  cases hn

/-! ## What starting and stepping are made of -/

variable [Scalar α]

@[simp] theorem saveIfDue_values (s : Sim α) : s.saveIfDue.values = s.values := by
  unfold saveIfDue
  split <;> rfl

@[simp] theorem saveIfDue_step (s : Sim α) : s.saveIfDue.step = s.step := by
  unfold saveIfDue
  split <;> rfl

theorem continues_save (s : Sim α) : s.Continues s.save := ⟨rfl, rfl, rfl, rfl, rfl, rfl⟩

theorem continues_saveIfDue (s : Sim α) : s.Continues s.saveIfDue := by
  unfold saveIfDue
  split
  · exact s.continues_save
  · exact .refl s

/-- Computing what a step computes settles a simulation. -/
theorem settled_of_fulfils {s : Sim α} {b : Board α} {v : Values α}
    (hf : s.Fulfils b s.model.equations.flows v) (hs : s.Prepared) : (s.withValues v).Settled := by
  intro n hn
  rw [withValues_values]
  by_cases hmem : n ∈ ruleNames s.model.equations.flows
  · obtain ⟨r, hr, rfl⟩ := mem_ruleNames.mp hmem
    obtain ⟨x, hx, _⟩ := hf.rules r hr
    rw [hx, Option.isSome_some]
  · rw [hf.others n hmem]
    exact hs n hn hmem

/-! ## Starting -/

/-- **What starting gives where it gets through:** the starting values are computed from one
another, then all that is computed at each step, and the state is recorded. -/
theorem start_ok {s : Sim α} {b : Board α} (hm : s.model.Sound) (h : (s.start b).fault = none) :
    ∃ u v, s.Fulfils b s.model.equations.initials u ∧
      (s.withValues u).Fulfils b s.model.equations.flows v ∧
      (s.start b).sim = { (s.withValues v).save with phase := .initialized } ∧
      b.Spent (s.start b).board := by
  unfold start at h ⊢
  have hboth := Reached.ok_of_andThen h
  have hi := Reached.ok_of_andThen hboth
  rw [Reached.andThen_of_ok hboth]
  rw [Reached.andThen_of_ok hi] at hboth ⊢
  obtain ⟨u, hu, hspent, hfu⟩ := apply_ok hm.initials hi
  simp only [hu, withValues_model] at hboth ⊢
  obtain ⟨v, hv, hspent', hfv⟩ := apply_ok hm.flows hboth
  refine ⟨u, v, hfu, ⟨hfv.others, ?_⟩, by rw [hv, withValues_withValues],
    hspent.trans hspent'⟩
  intro r hr
  obtain ⟨x, hx, hval⟩ := hfv.rules r hr
  rw [setting_of_spent _ hspent] at hval
  exact ⟨x, hx, hval⟩

/-! ## Stepping -/

theorem advance_of_error {s : Sim α} {b b' : Board α} {e : RunFault}
    (h : s.evalAll b ∅ s.model.equations.stocks = (.error e, b')) :
    s.advance b = ⟨s, b', some e⟩ := by
  rw [advance, h]

theorem advance_of_ok {s : Sim α} {b b' : Board α} {w : Values α}
    (h : s.evalAll b ∅ s.model.equations.stocks = (.ok w, b')) :
    s.advance b = ((s.moved w).apply b' s.model.equations.flows).andThen fun s b =>
      ⟨{ s.saveIfDue with phase := .stepping }, b, none⟩ := by
  rw [advance, h]
  rfl

/-- **What stepping gives where it gets through:** the stocks move on from the state before, and all
else is computed from them and the new time. -/
theorem advance_ok {s : Sim α} {b : Board α} (hm : s.model.Sound)
    (h : (s.advance b).fault = none) :
    ∃ w v, (∀ n, n ∉ ruleNames s.model.equations.stocks → w[n]? = none) ∧
      (∀ r ∈ s.model.equations.stocks,
        ∃ x, w[r.name]? = some x ∧ r.formula.value? (s.setting b) = some x) ∧
      (s.moved w).Fulfils b s.model.equations.flows v ∧
      (s.advance b).sim = { ((s.moved w).withValues v).saveIfDue with phase := .stepping } ∧
      b.Spent (s.advance b).board := by
  cases he : s.evalAll b ∅ s.model.equations.stocks with | mk res b₁ =>
  cases res with
  | error e => rw [advance_of_error he] at h; cases h
  | ok w =>
    obtain ⟨hspent, hothers, hrules⟩ := evalAll_ok hm.stocks_nodup he
    rw [advance_of_ok he] at h ⊢
    have hf := Reached.ok_of_andThen h
    obtain ⟨v, hv, hspent', hfv⟩ := apply_ok hm.flows hf
    rw [Reached.andThen_of_ok hf]
    refine ⟨w, v, fun n hn => by rw [hothers n hn]; rfl, hrules, ⟨hfv.others, ?_⟩,
      by rw [hv], hspent.trans hspent'⟩
    intro r hr
    obtain ⟨x, hx, hval⟩ := hfv.rules r hr
    rw [setting_of_spent _ hspent] at hval
    exact ⟨x, hx, hval⟩

/-! ## The state that a step leaves -/

theorem prepared_withValues {s : Sim α} {b : Board α} {u : Values α} (hm : s.model.Sound)
    (ht : (s.values[timeName]?).isSome) (hu : s.Fulfils b s.model.equations.initials u) :
    (s.withValues u).Prepared := by
  intro n hn hflow
  rw [withValues_values]
  rcases List.mem_cons.mp hn with rfl | hn
  · rw [hu.others _ hm.time_not_initial]
    exact ht
  · obtain ⟨r, hr, rfl⟩ :=
      mem_ruleNames.mp (hm.started ((List.mem_append.mp hn).resolve_right hflow))
    obtain ⟨x, hx, _⟩ := hu.rules r hr
    rw [hx, Option.isSome_some]

theorem prepared_moved {s : Sim α} {b : Board α} {w : Values α}
    (hw : ∀ r ∈ s.model.equations.stocks,
      ∃ x, w[r.name]? = some x ∧ r.formula.value? (s.setting b) = some x) :
    (s.moved w).Prepared := by
  intro n hn hflow
  rw [getElem?_moved]
  by_cases htime : timeName = n
  · rw [if_pos htime, Option.isSome_some]
  · rw [if_neg htime]
    have hmem := (List.mem_cons.mp hn).resolve_left (Ne.symm htime)
    obtain ⟨r, hr, rfl⟩ := mem_ruleNames.mp ((List.mem_append.mp hmem).resolve_right hflow)
    obtain ⟨x, hx, _⟩ := hw r hr
    rw [hx, Option.isSome_some]

theorem settled_start {s : Sim α} {b : Board α} (hm : s.model.Sound)
    (ht : (s.values[timeName]?).isSome) (h : (s.start b).fault = none) :
    (s.start b).sim.Settled := by
  obtain ⟨u, v, hu, hv, hsim, _⟩ := start_ok hm h
  have hset : ((s.withValues u).withValues v).Settled :=
    settled_of_fulfils hv (prepared_withValues hm ht hu)
  rw [hsim]
  exact hset.congr rfl rfl

theorem settled_advance {s : Sim α} {b : Board α} (hm : s.model.Sound)
    (h : (s.advance b).fault = none) : (s.advance b).sim.Settled := by
  obtain ⟨w, v, _, hstocks, hv, hsim, _⟩ := advance_ok hm h
  have hset : ((s.moved w).withValues v).Settled := settled_of_fulfils hv (prepared_moved hstocks)
  rw [hsim]
  exact hset.congr (continues_saveIfDue _).model (saveIfDue_values _)

/-! ## Cut short -/

/-- A rule computed at each step that asks for a default. -/
def Asker (s : Sim α) (q : Rule α) : Prop := q ∈ s.model.equations.flows ∧ q.formula.asked ≠ []

/-- A start that is cut short: the board is closed under a rule that asks, and but for some values
the simulation is the same. -/
structure StartHalted (s : Sim α) (r : Reached α) : Prop where
  fault : r.fault ≠ none
  closed : r.board.isOpen = false
  asker : ∃ q, s.Asker q
  sim : ∃ v : Values α, r.sim = s.withValues v ∧ v[timeName]? = s.values[timeName]?

/-- A step that is cut short: the board is closed under a rule that asks, time and stocks have
moved, and that rule has no value. -/
structure StepHalted (s : Sim α) (r : Reached α) : Prop where
  fault : r.fault ≠ none
  closed : r.board.isOpen = false
  sim : ∃ (w v : Values α) (q : Rule α), r.sim = (s.moved w).withValues v ∧ s.Asker q ∧
    v[q.name]? = none

/-- **Only a closed board stops a start.** -/
theorem start_cases {s : Sim α} {b : Board α} (hm : s.model.Sound)
    (ht : (s.values[timeName]?).isSome) : (s.start b).fault = none ∨ s.StartHalted (s.start b) := by
  -- starting values ask for no default, so no board can stop them
  have hi : (s.apply b s.model.equations.initials).fault = none := by
    refine (apply_cases hm.initials (supplies_initials hm ht b)).resolve_right ?_
    rintro ⟨-, -, -, -, -, -, q, hq, hasks, -⟩
    exact hasks (hm.initials_asked q hq)
  obtain ⟨u, hu, _, hfu⟩ := apply_ok hm.initials hi
  unfold start
  rw [Reached.andThen_of_ok hi, hu, withValues_model]
  have hsup := supplies_flows (s := s.withValues u) hm (prepared_withValues hm ht hfu)
    (s.apply b s.model.equations.initials).board
  rcases apply_cases hm.flows hsup with hok | hcut
  · exact Or.inl (by rw [Reached.andThen_of_ok hok])
  · obtain ⟨⟨n, hfault⟩, hclosed, _, v, hv, hothers, q, hq, hasks, _⟩ := hcut
    have hne : ((s.withValues u).apply (s.apply b s.model.equations.initials).board
        s.model.equations.flows).fault ≠ none := by
      rw [hfault]
      exact nofun
    refine Or.inr ?_
    rw [Reached.andThen_of_fault hne]
    refine ⟨hne, hclosed, ⟨q, hq, hasks⟩, v, hv, ?_⟩
    rw [hothers _ hm.time_not_flow, withValues_values, hfu.others _ hm.time_not_initial]

/-- **Only a closed board stops a step.** -/
theorem advance_cases {s : Sim α} {b : Board α} (hm : s.model.Sound) (hs : s.Settled) :
    (s.advance b).fault = none ∨ s.StepHalted (s.advance b) := by
  obtain ⟨w, b', he⟩ := evalAll_isOk (supplies_stocks hm hs b) hm.stocks_asked ∅
  obtain ⟨_, hothers, hrules⟩ := evalAll_ok hm.stocks_nodup he
  rw [advance_of_ok he]
  have hsup := supplies_flows (s := s.moved w) hm (prepared_moved hrules) b'
  rcases apply_cases hm.flows hsup with hok | hcut
  · exact Or.inl (by rw [Reached.andThen_of_ok hok])
  · obtain ⟨⟨n, hfault⟩, hclosed, _, v, hv, _, q, hq, hasks, hkept⟩ := hcut
    have hne : ((s.moved w).apply b' s.model.equations.flows).fault ≠ none := by
      rw [hfault]
      exact nofun
    refine Or.inr ?_
    rw [Reached.andThen_of_fault hne]
    refine ⟨hne, hclosed, w, v, q, hv, ⟨hq, hasks⟩, ?_⟩
    -- a step keeps nothing but stocks and time, so the rule has no value of the step before either
    have hname := name_mem_ruleNames hq
    have htime : timeName ≠ q.name := fun he => hm.time_not_flow (he ▸ hname)
    rw [hkept, getElem?_moved, if_neg htime, hothers _ (hm.flow_not_stock hname)]
    rfl

/-- **On a closed board no step gets through** if some rule asks for a default. A rule that asks and
has no value before has none after. -/
theorem advance_closed {s : Sim α} {b : Board α} (hm : s.model.Sound) (hb : b.isOpen = false)
    {q : Rule α} (hq : s.Asker q) (hnone : s.values[q.name]? = none) :
    (s.advance b).fault ≠ none ∧ (s.advance b).board.isOpen = false ∧
      (s.advance b).sim.values[q.name]? = none := by
  have hspent := s.evalAll_spent b ∅ s.model.equations.stocks
  cases he : s.evalAll b ∅ s.model.equations.stocks with | mk res b₁ =>
  rw [he] at hspent
  have hclosed := hspent.isOpen_eq_false hb
  cases res with
  | error e =>
    rw [advance_of_error he]
    exact ⟨nofun, hclosed, hnone⟩
  | ok w =>
    obtain ⟨_, hothers, _⟩ := evalAll_ok hm.stocks_nodup he
    obtain ⟨hfault, hboard, hvalue⟩ :=
      apply_closed (s := s.moved w) hm.flows.nodup hclosed hq.1 hq.2
    have hname := name_mem_ruleNames hq.1
    have htime : timeName ≠ q.name := fun he => hm.time_not_flow (he ▸ hname)
    rw [advance_of_ok he, Reached.andThen_of_fault hfault]
    refine ⟨hfault, hboard, ?_⟩
    rw [hvalue, getElem?_moved, if_neg htime, hothers _ (hm.flow_not_stock hname)]
    rfl

/-! ## What starting and stepping leave alone -/

theorem continues_apply (s : Sim α) (b : Board α) (rules : List (Rule α)) :
    s.Continues (s.apply b rules).sim := by
  obtain ⟨v, hv, _⟩ := s.apply_sim b rules
  rw [hv]
  exact ⟨rfl, rfl, rfl, rfl, rfl, rfl⟩

theorem continues_start (s : Sim α) (b : Board α) : s.Continues (s.start b).sim := by
  refine Continues.andThen (Continues.andThen (s.continues_apply b _) ?_) ?_
  · intro s b
    exact s.continues_apply b _
  · intro s b
    exact s.continues_save.trans ⟨rfl, rfl, rfl, rfl, rfl, rfl⟩

theorem continues_advance (s : Sim α) (b : Board α) : s.Continues (s.advance b).sim := by
  cases he : s.evalAll b ∅ s.model.equations.stocks with | mk res b₁ =>
  cases res with
  | error e =>
    rw [advance_of_error he]
    exact .refl s
  | ok w =>
    have hmoved : s.Continues (s.moved w) := ⟨rfl, rfl, rfl, rfl, rfl, rfl⟩
    rw [advance_of_ok he]
    refine Continues.andThen (hmoved.trans ((s.moved w).continues_apply b₁ _)) ?_
    intro s b
    exact s.continues_saveIfDue.trans ⟨rfl, rfl, rfl, rfl, rfl, rfl⟩

theorem spent_start (s : Sim α) (b : Board α) : b.Spent (s.start b).board :=
  spent_andThen (spent_andThen (s.spent_apply b _) fun s b => s.spent_apply b _) fun _ b => .refl b

theorem spent_advance (s : Sim α) (b : Board α) : b.Spent (s.advance b).board := by
  have hspent := s.evalAll_spent b ∅ s.model.equations.stocks
  cases he : s.evalAll b ∅ s.model.equations.stocks with | mk res b₁ =>
  rw [he] at hspent
  cases res with
  | error e => rwa [advance_of_error he]
  | ok w =>
    rw [advance_of_ok he]
    exact spent_andThen (hspent.trans ((s.moved w).spent_apply b₁ _)) fun _ b => .refl b

theorem phase_advance_of_fault {s : Sim α} {b : Board α} (h : (s.advance b).fault ≠ none) :
    (s.advance b).sim.phase = s.phase := by
  cases he : s.evalAll b ∅ s.model.equations.stocks with | mk res b₁ =>
  cases res with
  | error e => rw [advance_of_error he]
  | ok w =>
    obtain ⟨v, hv, _⟩ := (s.moved w).apply_sim b₁ s.model.equations.flows
    rw [advance_of_ok he] at h ⊢
    have hne : ((s.moved w).apply b₁ s.model.equations.flows).fault ≠ none :=
      fun hok => h (by rw [Reached.andThen_of_ok hok])
    rw [Reached.andThen_of_fault hne, hv]
    rfl

end Sim

end StockFlow
