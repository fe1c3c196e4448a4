import StockFlow.Proofs.Answer
import StockFlow.Proofs.Engine.Lockstep

/-!
# How far a difference reaches

Two simulations differ in some variables only. Where no rule of another variable reads one of those,
the difference stays among them, in every state and in all that is recorded.

* `Model.SameOutside` — two models whose rules differ for some variables only, which the others do
  not read
* `Sim.SameOutside` — two simulations of such models that differ in those variables only
* `Sim.kept_sameOutside`, `Sim.keptBySet_sameOutside` — runs and settings keep them so
* `Sim.LooksSame` — what can be seen of it
-/

namespace StockFlow

variable {α : Type} {D E : String → Prop}

/-- Two models that differ in some variables only. `D` holds of the names that differ in a state,
and `E` of those that differ while the starting values are computed; what is more of these is
computed anew before a state is reached. -/
structure Model.SameOutside (D E : String → Prop) (m m' : Model α) : Prop where
  flows : m'.equations.flows = m.equations.flows
  stocks : m'.equations.stocks = m.equations.stocks
  tables : m'.equations.tables = m.equations.tables
  declares : ∀ n, m'.declares n = m.declares n
  initialNames : ruleNames m'.equations.initials = ruleNames m.equations.initials
  initials : ∀ r ∈ m.equations.initials, ¬E r.name →
    r ∈ m'.equations.initials ∧ ∀ n ∈ r.formula.vars, ¬E n
  reads : ∀ r ∈ m.equations.stocks ++ m.equations.flows, ¬D r.name → ∀ n ∈ r.formula.vars, ¬D n
  time : ¬D timeName
  wider : ∀ n, D n → E n
  anew : ∀ n, E n → D n ∨ n ∈ ruleNames m.equations.flows

theorem Model.SameOutside.isOverridable {m m' : Model α} (h : m.SameOutside D E m') (n : String) :
    m'.isOverridable n = m.isOverridable n := by
  unfold Model.isOverridable
  rw [h.flows]

/-- Two rows that are the same but for the columns of some names. -/
def Report.SameRow (D : String → Prop) (names : List String) (row row' : α × List α) : Prop :=
  row'.1 = row.1 ∧ ∀ i : Nat, (∀ n, names[i]? = some n → ¬D n) → row'.2[i]? = row.2[i]?

namespace Sim

variable {s s' : Sim α} {b b' : Board α} {v v' : Values α}

/-- **Two simulations that differ in some variables only,** and so do the answers that they get from
their boards. -/
structure SameOutside (D E : String → Prop) (s : Sim α) (b : Board α) (s' : Sim α)
    (b' : Board α) : Prop where
  label : s'.label = s.label
  model : s.model.SameOutside D E s'.model
  spec : s'.spec = s.spec
  saveEvery : s'.saveEvery = s.saveEvery
  step : s'.step = s.step
  phase : s'.phase = s.phase
  values : ∀ n : String, ¬D n → s'.values[n]? = s.values[n]?
  reportLabel : s'.report.label = s.report.label
  names : s'.report.names = s.report.names
  rows : List.Forall₂ (Report.SameRow D s.report.names) s.report.rows.toList s'.report.rows.toList
  answers : ∀ n, ¬D n → b'.lookup s'.id s'.model.defaults n = b.lookup s.id s.model.defaults n

/-! ## Rules in order -/

section

variable [Scalar α]

/-- **A difference that is not read is not handed on:** two solutions of rules that differ for some
names only, which the others do not read, differ for those names only. -/
theorem getElem?_eq_of_fulfils {N : String → Prop} {rules rules' : List (Rule α)}
    (ho : InOrder rules) (hnames : ruleNames rules' = ruleNames rules)
    (hrules : ∀ r ∈ rules, ¬N r.name → r ∈ rules' ∧ ∀ n ∈ r.formula.vars, ¬N n)
    (hasked : ∀ r ∈ rules, ¬N r.name → ∀ n ∈ r.formula.asked,
      b'.lookup s'.id s'.model.defaults n = b.lookup s.id s.model.defaults n)
    (htables : s'.model.equations.tables = s.model.equations.tables) (hspec : s'.spec = s.spec)
    (hothers : ∀ n : String, n ∉ ruleNames rules → ¬N n → s'.values[n]? = s.values[n]?)
    (hf : s.Fulfils b rules v) (hf' : s'.Fulfils b' rules' v') (n : String) (hn : ¬N n) :
    v'[n]? = v[n]? := by
  have hkept : ∀ n : String, n ∉ ruleNames rules → ¬N n → v'[n]? = v[n]? := by
    intro n hnot hN
    rw [hf.others n hnot, hf'.others n (hnames ▸ hnot)]
    exact hothers n hnot hN
  have hcomputed : ∀ r ∈ rules, ¬N r.name → v'[r.name]? = v[r.name]? := by
    refine ho.induction (P := fun n => ¬N n → v'[n]? = v[n]?) (fun r _ n _ hnot => hkept n hnot) ?_
    intro r hr hreads hN
    obtain ⟨hr', hvars⟩ := hrules r hr hN
    obtain ⟨x, hx, hval⟩ := hf.rules r hr
    obtain ⟨x', hx', hval'⟩ := hf'.rules r hr'
    have hsame : r.formula.value? ((s'.withValues v').setting b') =
        r.formula.value? ((s.withValues v).setting b) := by
      refine Formula.value?_congr (fun n hn => hreads n hn (hvars n hn)) (hasked r hr hN) ?_ ?_
      · exact fun n _ => congrArg (fun t : Tables α => t[n]?) htables
      · exact congrArg Timespec.dt hspec
    rw [hx, hx', ← hval, ← hval', hsame]
  by_cases hmem : n ∈ ruleNames rules
  · obtain ⟨r, hr, rfl⟩ := mem_ruleNames.mp hmem
    exact hcomputed r hr hn
  · exact hkept n hmem hn

end

namespace SameOutside

theorem getD (h : SameOutside D E s b s' b') {n : String} (hn : ¬D n) (x : α) :
    s'.values.getD n x = s.values.getD n x := by
  rw [Std.TreeMap.getD_eq_getD_getElem?, Std.TreeMap.getD_eq_getD_getElem?, h.values n hn]

theorem time (h : SameOutside D E s b s' b') : s'.time = s.time := by
  unfold Sim.time
  rw [h.getD h.model.time, h.spec]

theorem withValues (h : SameOutside D E s b s' b') (hv : ∀ n : String, ¬D n → v'[n]? = v[n]?) :
    SameOutside D E (s.withValues v) b (s'.withValues v') b' :=
  { h with values := hv }

theorem withPhase (h : SameOutside D E s b s' b') (p : Phase) :
    SameOutside D E { s with phase := p } b { s' with phase := p } b' :=
  { h with phase := rfl }

variable [Scalar α]

theorem nextTime (h : SameOutside D E s b s' b') : s'.nextTime = s.nextTime := by
  unfold Sim.nextTime
  rw [h.time, h.spec]

theorem wouldPass (h : SameOutside D E s b s' b') (t : α) : s'.wouldPass t = s.wouldPass t := by
  unfold Sim.wouldPass Sim.nudged
  rw [h.nextTime, h.spec]

theorem moved (h : SameOutside D E s b s' b') (hv : ∀ n : String, ¬D n → v'[n]? = v[n]?) :
    SameOutside D E (s.moved v) b (s'.moved v') b' := by
  refine { h with values := ?_, step := congrArg (· + 1) h.step }
  intro n hn
  rw [getElem?_moved, getElem?_moved, h.nextTime, hv n hn]

/-! ## Recording -/

/-- Recording adds rows that differ in the same variables only. -/
theorem save (h : SameOutside D E s b s' b') : SameOutside D E s.save b s'.save b' := by
  have hrow : Report.SameRow D s.report.names s.row s'.row := by
    refine ⟨h.getD h.model.time _, fun i hi => ?_⟩
    show (s'.report.names.map _)[i]? = (s.report.names.map _)[i]?
    rw [h.names, List.getElem?_map, List.getElem?_map]
    cases hname : s.report.names[i]? with
    | none => rfl
    | some n => exact congrArg some (h.getD (hi n hname) _)
  refine { h with rows := ?_ }
  rw [save_rows, save_rows, Array.toList_push, Array.toList_push]
  exact List.rel_append h.rows (.cons hrow .nil)

theorem saveIfDue (h : SameOutside D E s b s' b') :
    SameOutside D E s.saveIfDue b s'.saveIfDue b' := by
  unfold Sim.saveIfDue
  rw [h.step, h.saveEvery]
  by_cases hdue : s.step % s.saveEvery = 0
  · rw [if_pos hdue, if_pos hdue]
    exact h.save
  · rw [if_neg hdue, if_neg hdue]
    exact h

/-! ## Starting and stepping -/

/-- Computing what is computed at each step, from values that differ in the same variables or in
such as are computed. -/
theorem flows (h : SameOutside D E s b s' b') (hs : s.model.Sound) {u u' : Values α}
    (hothers : ∀ n : String, n ∉ ruleNames s.model.equations.flows → ¬D n → u'[n]? = u[n]?)
    (hf : (s.withValues u).Fulfils b s.model.equations.flows v)
    (hf' : (s'.withValues u').Fulfils b' s'.model.equations.flows v') (n : String) (hn : ¬D n) :
    v'[n]? = v[n]? := by
  have hnames : ruleNames (s'.withValues u').model.equations.flows =
    ruleNames (s.withValues u).model.equations.flows := congrArg ruleNames h.model.flows
  refine getElem?_eq_of_fulfils hs.flows hnames ?_ ?_ ?_ ?_ ?_ hf hf' n hn
  · intro r hr hD
    exact ⟨h.model.flows ▸ hr, h.model.reads r (List.mem_append_right _ hr) hD⟩
  · intro r hr hD m hm
    -- a rule that asks for a default asks for its own
    have hform := (hs.flows_asked r hr (List.ne_nil_of_mem hm)).1
    rw [hform, Formula.asked, List.mem_singleton] at hm
    exact h.answers m (hm ▸ hD)
  · exact h.model.tables
  · exact h.spec
  · exact hothers

/-- **A start keeps the difference where it is.** -/
theorem start (h : SameOutside D E s b s' b') (hs : s.model.Sound) (hs' : s'.model.Sound)
    (hok : (s.start b).fault = none) (hok' : (s'.start b').fault = none) :
    SameOutside D E (s.start b).sim b (s'.start b').sim b' := by
  obtain ⟨u, v, hu, hv, hsim, _⟩ := start_ok hs hok
  obtain ⟨u', v', hu', hv', hsim', _⟩ := start_ok hs' hok'
  have hstarted : ∀ n : String, ¬E n → u'[n]? = u[n]? := by
    refine getElem?_eq_of_fulfils hs.initials h.model.initialNames h.model.initials ?_
      h.model.tables h.spec ?_ hu hu'
    · intro r hr _ n hn
      rw [hs.initials_asked r hr] at hn
      cases hn
    · exact fun n _ hE => h.values n fun hD => hE (h.model.wider n hD)
  have hcomputed : ∀ n : String, ¬D n → v'[n]? = v[n]? := by
    refine h.flows hs (fun n hnot hD => hstarted n fun hE => ?_) hv hv'
    exact (h.model.anew n hE).elim hD hnot
  rw [hsim, hsim']
  exact (h.withValues hcomputed).save.withPhase .initialized

/-- Stocks that move on from states that differ in some variables only. -/
theorem evalAll (h : SameOutside D E s b s' b') (hs : s.model.Sound)
    (hothers : ∀ n, n ∉ ruleNames s.model.equations.stocks → v[n]? = none)
    (hrules : ∀ r ∈ s.model.equations.stocks,
      ∃ x, v[r.name]? = some x ∧ r.formula.value? (s.setting b) = some x)
    (hothers' : ∀ n, n ∉ ruleNames s'.model.equations.stocks → v'[n]? = none)
    (hrules' : ∀ r ∈ s'.model.equations.stocks,
      ∃ x, v'[r.name]? = some x ∧ r.formula.value? (s'.setting b') = some x)
    (n : String) (hn : ¬D n) : v'[n]? = v[n]? := by
  rw [h.model.stocks] at hothers' hrules'
  by_cases hmem : n ∈ ruleNames s.model.equations.stocks
  · obtain ⟨r, hr, rfl⟩ := mem_ruleNames.mp hmem
    obtain ⟨x, hx, hval⟩ := hrules r hr
    obtain ⟨x', hx', hval'⟩ := hrules' r hr
    have hreads := h.model.reads r (List.mem_append_left _ hr) hn
    have hsame : r.formula.value? (s'.setting b') = r.formula.value? (s.setting b) := by
      refine Formula.value?_congr (fun m hm => h.values m (hreads m hm)) ?_ ?_ ?_
      · intro m hm
        rw [hs.stocks_asked r hr] at hm
        cases hm
      · exact fun m _ => congrArg (fun t : Tables α => t[m]?) h.model.tables
      · exact congrArg Timespec.dt h.spec
    rw [hx, hx', ← hval, ← hval', hsame]
  · rw [hothers n hmem, hothers' n hmem]

/-- **A step keeps the difference where it is.** -/
theorem advance (h : SameOutside D E s b s' b') (hs : s.model.Sound) (hs' : s'.model.Sound)
    (hok : (s.advance b).fault = none) (hok' : (s'.advance b').fault = none) :
    SameOutside D E (s.advance b).sim b (s'.advance b').sim b' := by
  obtain ⟨w, v, hothers, hrules, hv, hsim, _⟩ := advance_ok hs hok
  obtain ⟨w', v', hothers', hrules', hv', hsim', _⟩ := advance_ok hs' hok'
  have hmoved := h.moved (h.evalAll hs hothers hrules hothers' hrules')
  have hcomputed := hmoved.flows hs (fun n _ hD => hmoved.values n hD) hv hv'
  rw [hsim, hsim']
  exact (hmoved.withValues hcomputed).saveIfDue.withPhase .stepping

end SameOutside

/-! ## Runs and settings -/

theorem kept_sameOutside [Scalar α] : Kept (α := α) (SameOutside D E) where
  phase h := h.phase
  passes h := h.wouldPass
  stop h := congrArg Timespec.stop h.spec
  start h hok hok' := h.alike.start h.sound.model h.sound'.model hok hok'
  advance h hok hok' := h.alike.advance h.sound.model h.sound'.model hok hok'
  complete h := h.withPhase .complete

theorem keptBySet_sameOutside : KeptBySet (α := α) (SameOutside D E) := by
  intro s b s' b' h name x
  have halike := h.alike
  simp only [setValue, halike.model.declares, halike.model.isOverridable, halike.label,
    halike.phase, Board.set_of_running h.running, Board.set_of_running h.running']
  by_cases hdecl : s.model.declares name = true
  · by_cases hover : s.model.isOverridable name = true
    · simp only [hdecl, hover, Bool.not_true, Bool.false_eq_true, ↓reduceIte, true_and]
      have hanswers : ∀ n, ¬D n →
          (b'.pin s'.id name x).lookup s'.id s'.model.defaults n =
            (b.pin s.id name x).lookup s.id s.model.defaults n := by
        intro n hn
        rw [Board.lookup_pin, Board.lookup_pin, halike.answers n hn]
        simp only [true_and]
      by_cases hp : s.phase = .fresh
      · rw [if_pos hp, if_pos hp]
        exact { halike with answers := hanswers }
      · rw [if_neg hp, if_neg hp]
        refine { halike with values := ?_, answers := hanswers }
        intro n hn
        show (s'.values.insert name x)[n]? = (s.values.insert name x)[n]?
        rw [getElem?_insert_values, getElem?_insert_values, halike.values n hn]
    · simp only [hdecl, hover, Bool.not_true, Bool.not_false, Bool.false_eq_true, ↓reduceIte]
      exact ⟨trivial, halike⟩
  · simp only [hdecl, Bool.not_false, ↓reduceIte]
    exact ⟨trivial, halike⟩

/-! ## What can be seen -/

end Sim

namespace Report

variable {r r' : Report α}

theorem times_eq (hrows : List.Forall₂ (SameRow D r.names) r.rows.toList r'.rows.toList) :
    r'.times = r.times := by
  rw [times_eq_rows, times_eq_rows]
  exact map_eq_of_forall₂ (hrows.imp fun _ _ h => h.1)

/-- Rows that differ in the columns of some names are the same in the others. -/
theorem series_eq (hnames : r'.names = r.names)
    (hrows : List.Forall₂ (SameRow D r.names) r.rows.toList r'.rows.toList) {n : String}
    (hn : ¬D n) : r'.series n = r.series n := by
  have hcolumn : r'.column? n = r.column? n := by
    unfold column?
    rw [hnames]
  unfold series
  rw [hcolumn]
  cases hi : r.column? n with
  | none => rfl
  | some i =>
    have hname := getElem?_of_column? hi
    have hcells : r'.rows.toList.map (fun row => row.2[i]?) =
        r.rows.toList.map fun row => row.2[i]? := by
      refine map_eq_of_forall₂ (hrows.imp ?_)
      rintro row row' ⟨-, hsame⟩
      refine hsame i fun n' hn' => ?_
      rw [hname] at hn'
      exact Option.some.inj hn' ▸ hn
    have hfilter : ∀ rows : List (α × List α), rows.filterMap (fun row => row.2[i]?) =
        (rows.map fun row => row.2[i]?).filterMap id := fun rows => by
      rw [List.filterMap_map, Function.id_comp]
    rw [Option.map_some, Option.map_some, hfilter, hfilter, hcells]

/-- Reports that differ nowhere are the same. -/
theorem eq_of_sameRow (hlabel : r'.label = r.label) (hnames : r'.names = r.names)
    (hrows : List.Forall₂ (SameRow (fun _ => False) r.names) r.rows.toList r'.rows.toList) :
    r' = r := by
  have hrows' : r'.rows.toList = r.rows.toList := by
    refine (List.forall₂_eq_eq_eq ▸ hrows.imp ?_ : r.rows.toList = r'.rows.toList).symm
    rintro ⟨t, xs⟩ ⟨t', xs'⟩ ⟨rfl, hsame⟩
    have hxs : xs' = xs := List.ext_getElem? fun i => hsame i fun _ _ => id
    rw [hxs]
  exact eq_of_rows hlabel hnames (Array.toList_inj.mp hrows')

end Report

namespace Sim

variable {s s' : Sim α} {b b' : Board α}

/-- Two simulations that look the same but for some variables: the same time, the same number of
steps and rows, and the same present and recorded values of all other variables. -/
structure LooksSame (D : String → Prop) (s s' : Sim α) : Prop where
  time : s'.time = s.time
  step : s'.step = s.step
  phase : s'.phase = s.phase
  rows : s'.report.rows.size = s.report.rows.size
  value : ∀ n, ¬D n → s'.value n = s.value n
  series : ∀ n, ¬D n → s'.series n = s.series n

namespace SameOutside

theorem value (h : SameOutside D E s b s' b') {n : String} (hn : ¬D n) :
    s'.value n = s.value n := by
  unfold Sim.value
  rw [h.values n hn, h.label]

theorem looksSame (h : SameOutside D E s b s' b') : s.LooksSame D s' where
  time := h.time
  step := h.step
  phase := h.phase
  rows := h.rows.length_eq.symm
  value _ hn := h.value hn
  series n hn := by
    unfold Sim.series
    rw [Report.series_eq h.names h.rows hn, Report.times_eq h.rows, h.label]

theorem report_eq (h : SameOutside (fun _ => False) E s b s' b') : s'.report = s.report :=
  Report.eq_of_sameRow h.reportLabel h.names h.rows

end SameOutside

end Sim

end StockFlow
