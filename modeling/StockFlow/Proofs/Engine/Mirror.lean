import StockFlow.Proofs.Engine.Lockstep
import StockFlow.Proofs.Engine.Renumbered
import StockFlow.Proofs.Engine.Report
import StockFlow.Proofs.Equation.Rearranged

/-!
# Simulations of rearranged models

* `Sim.Mirrors` — two simulations of models with the same rules in another order, in the same state
* `Sim.Mirrors.fulfils` — rules in order have one solution, so they give both the same values
* `Sim.kept_mirrorsOn` — starting and stepping keep simulations mirrored
* `Sim.Twins.runTo`, `Sim.Twins.runAll` — they go through the same states and report the same
-/

namespace StockFlow.Sim

variable {α : Type} {s s' : Sim α} {b b' : Board α} {v v' : Values α}

/-- **Two simulations of rearranged models in the same state,** with reports of the same
observations. -/
structure Mirrors (s s' : Sim α) : Prop where
  label : s'.label = s.label
  model : s.model.Rearranged s'.model
  spec : s'.spec = s.spec
  saveEvery : s'.saveEvery = s.saveEvery
  values : ∀ n : String, s'.values[n]? = s.values[n]?
  step : s'.step = s.step
  phase : s'.phase = s.phase
  reportLabel : s'.report.label = s.report.label
  reportNames : s'.report.names.Perm s.report.names
  records : ∃ observed, s.report.Records observed ∧ s'.report.Records observed

namespace Mirrors

theorem value (h : s.Mirrors s') (n : String) : s'.value n = s.value n := by
  unfold Sim.value
  rw [h.values, h.label]

theorem getD (h : s.Mirrors s') (n : String) (x : α) :
    s'.values.getD n x = s.values.getD n x := by
  rw [Std.TreeMap.getD_eq_getD_getElem?, Std.TreeMap.getD_eq_getD_getElem?, h.values]

theorem time (h : s.Mirrors s') : s'.time = s.time := by
  unfold Sim.time
  rw [h.getD, h.spec]

theorem withValues (h : s.Mirrors s') (hv : ∀ n : String, v'[n]? = v[n]?) :
    (s.withValues v).Mirrors (s'.withValues v') :=
  { h with values := hv }

theorem withPhase (h : s.Mirrors s') (p : Phase) :
    Mirrors { s with phase := p } { s' with phase := p } :=
  { h with phase := rfl }

/-- Mirrored simulations have the same setting. -/
theorem setting (h : s.Mirrors s') (hb : b.SameFor s.id b' s'.id) :
    s'.setting b' = s.setting b := by
  have hdefault : b'.lookup s'.id s'.model.defaults = b.lookup s.id s.model.defaults := by
    funext n
    unfold Board.lookup
    rw [hb.pinned, h.model.defaults]
  unfold Sim.setting
  simp only [hdefault, h.values, h.model.tables, h.spec]

theorem tsv {s s' : Sim Float} (h : s.Mirrors s') : s'.report.tsv = s.report.tsv := by
  obtain ⟨_, hs, hs'⟩ := h.records
  exact Report.tsv_eq_of_records h.reportLabel h.reportNames hs hs'

variable [Scalar α]

/-- **Rules in order have one solution,** whatever order that is. -/
theorem fulfils (h : s.Mirrors s') (hb : b.SameFor s.id b' s'.id) {rules rules' : List (Rule α)}
    (ho : InOrder rules) (hp : rules'.Perm rules) (hf : s.Fulfils b rules v)
    (hf' : s'.Fulfils b' rules' v') (n : String) : v'[n]? = v[n]? := by
  have hsame : ∀ u u' : Values α, (∀ n : String, u'[n]? = u[n]?) →
      (s'.withValues u').setting b' = (s.withValues u).setting b :=
    fun u u' hu => (h.withValues hu).setting hb
  -- all but the values agree whatever the values are
  have hplain := hsame v v fun _ => rfl
  have hvalue : ((s'.withValues v').setting b').value = ((s.withValues v).setting b).value :=
    ho.values_unique ?default ?table ?dt ?others ?rules ?rules'
  exact congrFun hvalue n
  case default => exact (congrArg Setting.default hplain :)
  case table => exact (congrArg Setting.table hplain :)
  case dt => exact (congrArg Setting.dt hplain :)
  case others =>
    intro m hm
    have hm' : m ∉ ruleNames rules' := fun hmem => hm ((hp.map Rule.name).mem_iff.mp hmem)
    show v'[m]? = v[m]?
    rw [hf.others m hm, hf'.others m hm', h.values]
  case rules =>
    intro r hr
    obtain ⟨x, hx, hval⟩ := hf'.rules r (hp.mem_iff.mpr hr)
    exact hx.trans hval.symm
  case rules' =>
    intro r hr
    obtain ⟨x, hx, hval⟩ := hf.rules r hr
    exact hx.trans hval.symm

/-! ## Recording -/

/-- Recording adds the same observation to both reports. -/
theorem save (h : s.Mirrors s') : s.save.Mirrors s'.save := by
  obtain ⟨observed, hs, hs'⟩ := h.records
  have hpush : ∀ {t : Sim α}, t.report.Records observed → t.save.report.Records
      (observed ++ [(t.values.getD timeName Scalar.undefined,
        fun n => t.values.getD n Scalar.undefined)]) := by
    intro t ht
    show t.save.report.rows.toList = _
    rw [save_rows, Array.toList_push, ht, List.map_append]
    rfl
  refine { h with records := ⟨_, hpush hs, ?_⟩ }
  have hobserved := hpush hs'
  simp only [h.getD] at hobserved
  exact hobserved

theorem saveIfDue (h : s.Mirrors s') : s.saveIfDue.Mirrors s'.saveIfDue := by
  unfold Sim.saveIfDue
  rw [h.step, h.saveEvery]
  by_cases hdue : s.step % s.saveEvery = 0
  · rw [if_pos hdue, if_pos hdue]
    exact h.save
  · rw [if_neg hdue, if_neg hdue]
    exact h

theorem nextTime (h : s.Mirrors s') : s'.nextTime = s.nextTime := by
  unfold Sim.nextTime
  rw [h.time, h.spec]

theorem wouldPass (h : s.Mirrors s') (t : α) : s'.wouldPass t = s.wouldPass t := by
  unfold Sim.wouldPass Sim.nudged
  rw [h.nextTime, h.spec]

theorem moved (h : s.Mirrors s') (hv : ∀ n : String, v'[n]? = v[n]?) :
    (s.moved v).Mirrors (s'.moved v') := by
  refine { h with values := ?_, step := congrArg (· + 1) h.step }
  intro n
  rw [getElem?_moved, getElem?_moved, h.nextTime, hv]

/-! ## Starting and stepping -/

/-- **A start that gets through in both gives both the same state.** -/
theorem start (h : s.Mirrors s') (hb : b.SameFor s.id b' s'.id) (hs : s.model.Sound)
    (hs' : s'.model.Sound) (hok : (s.start b).fault = none) (hok' : (s'.start b').fault = none) :
    (s.start b).sim.Mirrors (s'.start b').sim := by
  obtain ⟨u, v, hu, hv, hsim, _⟩ := start_ok hs hok
  obtain ⟨u', v', hu', hv', hsim', _⟩ := start_ok hs' hok'
  have hstarted := h.withValues (h.fulfils hb hs.initials h.model.initials hu hu')
  have hcomputed := hstarted.withValues (hstarted.fulfils hb hs.flows h.model.flows hv hv')
  rw [hsim, hsim']
  exact hcomputed.save.withPhase .initialized

/-- Rules that all see the same state and give nothing else give the same. -/
theorem evalAll (h : s.Mirrors s') (hb : b.SameFor s.id b' s'.id) {rules rules' : List (Rule α)}
    (hp : rules'.Perm rules) (hothers : ∀ n, n ∉ ruleNames rules → v[n]? = none)
    (hrules : ∀ r ∈ rules, ∃ x, v[r.name]? = some x ∧ r.formula.value? (s.setting b) = some x)
    (hothers' : ∀ n, n ∉ ruleNames rules' → v'[n]? = none)
    (hrules' : ∀ r ∈ rules', ∃ x, v'[r.name]? = some x ∧
      r.formula.value? (s'.setting b') = some x) (n : String) : v'[n]? = v[n]? := by
  by_cases hn : n ∈ ruleNames rules
  · obtain ⟨r, hr, rfl⟩ := mem_ruleNames.mp hn
    obtain ⟨x, hx, hval⟩ := hrules r hr
    obtain ⟨x', hx', hval'⟩ := hrules' r (hp.mem_iff.mpr hr)
    rw [h.setting hb] at hval'
    rw [hx, hx', ← hval, hval']
  · rw [hothers n hn, hothers' n fun hmem => hn ((hp.map Rule.name).mem_iff.mp hmem)]

/-- **A step that gets through in both leads both to the same state.** -/
theorem advance (h : s.Mirrors s') (hb : b.SameFor s.id b' s'.id) (hs : s.model.Sound)
    (hs' : s'.model.Sound) (hok : (s.advance b).fault = none)
    (hok' : (s'.advance b').fault = none) :
    (s.advance b).sim.Mirrors (s'.advance b').sim := by
  obtain ⟨w, v, hothers, hrules, hv, hsim, _⟩ := advance_ok hs hok
  obtain ⟨w', v', hothers', hrules', hv', hsim', _⟩ := advance_ok hs' hok'
  have hmoved := h.moved (h.evalAll hb h.model.stocks hothers hrules hothers' hrules')
  have hcomputed := hmoved.withValues (hmoved.fulfils hb hs.flows h.model.flows hv hv')
  rw [hsim, hsim']
  exact hcomputed.saveIfDue.withPhase .stepping

end Mirrors

/-! ## Runs -/

variable [Scalar α]

/-- Mirrored simulations of sound models with which nothing went wrong, on boards that nobody closes
and that answer both the same. -/
structure Twins (s : Sim α) (b : Board α) (s' : Sim α) (b' : Board α) : Prop where
  mirrors : s.Mirrors s'
  boards : b.SameFor s.id b' s'.id
  sound : s.Sound
  sound' : s'.Sound
  alive : s.Alive
  alive' : s'.Alive

/-- Twins are mirrored and stand abreast. -/
def MirrorsOn (s : Sim α) (b : Board α) (s' : Sim α) (b' : Board α) : Prop :=
  s.Mirrors s' ∧ b.SameFor s.id b' s'.id

omit [Scalar α] in
theorem twins_iff_abreast : Twins s b s' b' ↔ Abreast MirrorsOn s b s' b' := by
  constructor
  · rintro ⟨hmirrors, hboards, hs, hs', halive, halive'⟩
    exact ⟨⟨hmirrors, hboards⟩, hboards.running, hboards.running', hs, hs', halive, halive'⟩
  · rintro ⟨⟨hmirrors, hboards⟩, _, _, hs, hs', halive, halive'⟩
    exact ⟨hmirrors, hboards, hs, hs', halive, halive'⟩

/-- **Starting and stepping keep simulations mirrored.** -/
theorem kept_mirrorsOn : Kept (α := α) MirrorsOn where
  phase h := h.1.phase
  passes h := h.1.wouldPass
  stop h := congrArg Timespec.stop h.1.spec
  start := by
    intro s b s' b' h hok hok'
    refine ⟨h.alike.1.start h.alike.2 h.sound.model h.sound'.model hok hok', ?_⟩
    rw [(s.continues_start b).id, (s'.continues_start b').id]
    exact h.alike.2
  advance := by
    intro s b s' b' h hok hok'
    refine ⟨h.alike.1.advance h.alike.2 h.sound.model h.sound'.model hok hok', ?_⟩
    rw [(s.continues_advance b).id, (s'.continues_advance b').id]
    exact h.alike.2
  complete h := ⟨h.1.withPhase .complete, h.2⟩

/-- The ends of two runs: neither ends, or both get through and end as twins. -/
def EndAsTwins (b b' : Board α) (x y : Option (Reached α)) : Prop :=
  (x = none ∧ y = none) ∨ ∃ t t', x = some ⟨t, b, none⟩ ∧ y = some ⟨t', b', none⟩ ∧
    Twins t b t' b'

/-- **Twins go through the same states where they are run.** -/
theorem Twins.runTo (h : Twins s b s' b') (fuel : Nat) (target : α) :
    List.Forall₂ Mirrors (s.trail fuel target b) (s'.trail fuel target b') ∧
      EndAsTwins b b' (s.runTo fuel target b) (s'.runTo fuel target b') := by
  obtain ⟨htrail, hend⟩ := kept_mirrorsOn.runTo (twins_iff_abreast.mp h) fuel target
  refine ⟨htrail.imp fun _ _ h => h.1, ?_⟩
  simpa only [EndAsTwins, EndAlike, twins_iff_abreast] using hend

/-! ## One run after the other -/

/-- The states that runs to some times go through, one run after the other, and where they end. A
run that does not end is the last, and so is one that does not get through. -/
def runAll (fuel : Nat) : List α → Sim α → Board α → List (Sim α) × Option (Reached α)
  | [], s, b => ([], some ⟨s, b, none⟩)
  | target :: targets, s, b =>
    let states := s.trail fuel target b
    match s.runTo fuel target b with
    | none => (states, none)
    | some r =>
      match r.fault with
      | some _ => (states, some r)
      | none =>
        let (later, last) := runAll fuel targets r.sim r.board
        (states ++ later, last)

/-- **Twins go through the same states in any sequence of runs,** and end as twins if it ends. -/
theorem Twins.runAll (h : Twins s b s' b') (fuel : Nat) (targets : List α) :
    List.Forall₂ Mirrors (Sim.runAll fuel targets s b).1 (Sim.runAll fuel targets s' b').1 ∧
      EndAsTwins b b' (Sim.runAll fuel targets s b).2 (Sim.runAll fuel targets s' b').2 := by
  induction targets generalizing s s' with
  | nil => exact ⟨.nil, Or.inr ⟨s, s', rfl, rfl, h⟩⟩
  | cons target targets ih =>
    obtain ⟨htrail, ⟨hr, hr'⟩ | ⟨t, t', hr, hr', htwins⟩⟩ := h.runTo fuel target
    · simp only [Sim.runAll, hr, hr']
      exact ⟨htrail, Or.inl ⟨rfl, rfl⟩⟩
    · simp only [Sim.runAll, hr, hr']
      obtain ⟨hlater, hend⟩ := ih htwins
      exact ⟨List.rel_append htrail hlater, hend⟩

end StockFlow.Sim
