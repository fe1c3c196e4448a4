import StockFlow.Proofs.Engine.History
import StockFlow.Proofs.Model.Timespec

/-!
# The clock of a simulation

* `Sim.OnTime` — the time of a simulation is that of its specification after as many steps
* `Sim.History.onTime` — whatever happens to a simulation, it is on time
* `Sim.OnTime.exists_runTo` — where the times pass the end every run ends
* `Sim.passes_of_runTo` — a run to the end that ends has passed it
-/

namespace StockFlow.Sim

variable {s s' s₀ : Sim Float} {b b₀ : Board Float} {c : Call Float} {target : Float} {fuel : Nat}
  {r : Reached Float} {log : Log Float}

/-- The time of a simulation is that of its specification after as many steps. -/
def OnTime (s : Sim Float) : Prop := s.values[timeName]? = some (s.spec.time s.step)

theorem OnTime.nextTime (h : s.OnTime) : s.nextTime = s.spec.time (s.step + 1) := by
  rw [Sim.nextTime, time, Std.TreeMap.getD_eq_getD_getElem?, h]
  rfl

theorem OnTime.congr (h : s.OnTime) (hspec : s'.spec = s.spec) (hstep : s'.step = s.step)
    (htime : s'.values[timeName]? = s.values[timeName]?) : s'.OnTime := by
  unfold OnTime
  rw [htime, hspec, hstep]
  exact h

/-! ## What keeps a simulation on time -/

theorem OnTime.apply {rules : List (Rule Float)} (h : s.OnTime) (hn : timeName ∉ ruleNames rules) :
    (s.apply b rules).sim.OnTime := by
  obtain ⟨v, hv, hothers⟩ := s.apply_sim b rules
  rw [hv]
  exact h.congr rfl rfl (hothers _ hn)

theorem OnTime.andThen {next : Sim Float → Board Float → Reached Float} (h : r.sim.OnTime)
    (hnext : ∀ b, (next r.sim b).sim.OnTime) : (r.andThen next).sim.OnTime := by
  by_cases hr : r.fault = none
  · rw [Reached.andThen_of_ok hr]
    exact hnext r.board
  · rwa [Reached.andThen_of_fault hr]

theorem OnTime.start (h : s.OnTime) (hm : s.model.Sound) : (s.start b).sim.OnTime := by
  have hinitials : (s.apply b s.model.equations.initials).sim.OnTime := h.apply hm.time_not_initial
  have hflows : timeName ∉
      ruleNames (s.apply b s.model.equations.initials).sim.model.equations.flows := by
    rw [(s.continues_apply b _).model]
    exact hm.time_not_flow
  have hboth : ((s.apply b s.model.equations.initials).andThen fun s b =>
      s.apply b s.model.equations.flows).sim.OnTime :=
    hinitials.andThen fun _ => hinitials.apply hflows
  exact hboth.andThen fun _ => hboth.congr rfl rfl rfl

/-- A step that fails before the time moves leaves a simulation as it was. -/
theorem OnTime.advance (h : s.OnTime) (hm : s.model.Sound) : (s.advance b).sim.OnTime := by
  cases he : s.evalAll b ∅ s.model.equations.stocks with | mk res b₁ =>
  cases res with
  | error e =>
    rw [advance_of_error he]
    exact h
  | ok w =>
    have hmoved : (s.moved w).OnTime := by
      unfold OnTime
      rw [getElem?_moved, if_pos rfl, h.nextTime]
      rfl
    have hflows : ((s.moved w).apply b₁ s.model.equations.flows).sim.OnTime :=
      hmoved.apply hm.time_not_flow
    rw [advance_of_ok he]
    refine hflows.andThen ?_
    intro _
    exact hflows.congr (continues_saveIfDue _).spec (saveIfDue_step _)
      (congrArg (·[timeName]?) (saveIfDue_values _))

theorem OnTime.setValue (h : s.OnTime) (hm : s.model.Sound) (name : String) (x : Float)
    (b : Board Float) : (s.setValue name x b).sim.OnTime := by
  rcases s.setValue_cases name x b with ⟨e, he⟩ | ⟨_, hflow, he⟩
  · rwa [he]
  · rw [he]
    by_cases hp : s.phase = .fresh
    · rwa [if_pos hp]
    · have hne : name ≠ timeName := fun hname => hm.time_not_flow (hname ▸ hflow)
      rw [if_neg hp]
      refine h.congr rfl rfl ?_
      exact getElem?_assign_of_ne s x hne

theorem OnTime.runTo (h : s.OnTime) (hs : s.Sound) (hr : s.runTo fuel target b = some r) :
    r.sim.OnTime := by
  refine runTo_induction (P := fun t _ => t.OnTime ∧ t.Sound) (Q := fun r => r.sim.OnTime)
    ?still ?stuck ?start ?begun ?rest ?finish ?step ?halt hr
  case still => exact fun _ => h
  case stuck => exact fun _ _ => h.start hs.model
  case start => exact fun _ _ => ⟨h.start hs.model, hs.continues (s.continues_start b)⟩
  case begun => exact fun _ => ⟨h, hs⟩
  case rest => exact fun _ _ ht _ => ht.1
  case finish => exact fun _ _ ht _ => ht.1.congr rfl rfl rfl
  case step =>
    intro t b ht _
    exact ⟨ht.1.advance ht.2.model, ht.2.continues (t.continues_advance b)⟩
  case halt => exact fun t b ht _ => ht.1.advance ht.2.model

theorem OnTime.performs (h : s.OnTime) (hs : s.Sound) (hc : Performs s b c r) : r.sim.OnTime := by
  cases hc with
  | run hr => exact h.runTo hs hr
  | set name x => exact h.setValue hs.model name x b
  | request q => exact h

/-- **Whatever happens to a simulation, it is on time.** -/
theorem History.onTime (hist : History s₀ b₀ log s b) (h : s₀.OnTime) (hs : s₀.Sound) :
    s.OnTime := by
  induction hist with
  | nil => exact h
  | snoc hbefore hc ih => exact ih.performs (hs.continues hbefore.continues) hc

theorem onTime_create (id : SimId) (label : String) (m : Model Float) (spec : Timespec Float)
    (saveEvery : Nat) : (create id label m spec saveEvery).OnTime := by
  unfold OnTime
  rw [create, getElem?_insert_values, if_pos rfl]
  rfl

/-! ## Runs that end -/

/-- A simulation would pass its end if the time after the next step lies behind the bound. -/
theorem OnTime.wouldPass_iff (h : s.OnTime) :
    s.wouldPass s.spec.stop = true ↔ s.spec.bound < s.spec.time (s.step + 1) := by
  unfold wouldPass
  rw [h.nextTime]
  exact decide_eq_true_iff

/-- **Where the times pass the end, steps come to an end.** -/
theorem OnTime.exists_stepTo (h : s.OnTime) (hs : s.Sound) {k : Nat}
    (hpass : ∀ l, k ≤ l → s.spec.bound < s.spec.time (l + 1)) :
    ∃ fuel r, stepTo target fuel s b = some r := by
  -- by the number of steps that are left before the times are past the end for good
  induction hn : k - s.step generalizing s b with
  | zero =>
    have hend : s.wouldPass s.spec.stop = true := h.wouldPass_iff.mpr (hpass s.step (by omega))
    exact ⟨1, _, by rw [stepTo, if_pos hend]⟩
  | succ n ih =>
    by_cases hend : s.wouldPass s.spec.stop = true
    · exact ⟨1, _, by rw [stepTo, if_pos hend]⟩
    · by_cases htarget : s.wouldPass target = true
      · exact ⟨1, _, by rw [stepTo, if_neg hend, if_pos htarget]⟩
      · cases hf : (s.advance b).fault with
        | some e =>
          refine ⟨1, s.advance b, ?_⟩
          rw [stepTo, if_neg hend, if_neg htarget]
          simp only [hf]
        | none =>
          have hcont := s.continues_advance b
          have hstep := step_advance hs hf
          obtain ⟨fuel, r, hr⟩ := ih (b := (s.advance b).board) (h.advance hs.model)
            (hs.continues hcont) (by rw [hcont.spec]; exact hpass) (by omega)
          refine ⟨fuel + 1, r, ?_⟩
          rw [stepTo, if_neg hend, if_neg htarget]
          simp only [hf]
          exact hr

/-- **Where the times pass the end, every run ends.** -/
theorem OnTime.exists_runTo (h : s.OnTime) (hs : s.Sound) {k : Nat}
    (hpass : ∀ l, k ≤ l → s.spec.bound < s.spec.time (l + 1)) (target : Float) (b : Board Float) :
    ∃ fuel r, s.runTo fuel target b = some r := by
  unfold Sim.runTo prepare
  by_cases hc : s.phase = .complete
  · exact ⟨0, _, by rw [if_pos hc]⟩
  · by_cases hp : s.phase = .fresh
    · simp only [if_neg hc, if_pos hp]
      cases hf : (s.start b).fault with
      | some e => exact ⟨0, _, rfl⟩
      | none =>
        have hcont := s.continues_start b
        exact (h.start hs.model).exists_stepTo (hs.continues hcont)
          (by rw [hcont.spec]; exact hpass)
    · simp only [if_neg hc, if_neg hp]
      exact h.exists_stepTo hs hpass

/-- **A run to the end that nothing stops has passed it.** -/
theorem OnTime.passes_of_runTo (h : s.OnTime) (hs : s.Sound) (hc : s.phase ≠ .complete)
    (hr : s.runTo fuel s.spec.stop b = some r) (hok : r.fault = none) :
    ∃ k, s.spec.bound < s.spec.time (k + 1) := by
  refine runTo_induction (P := fun t _ => t.OnTime ∧ t.Sound ∧ s.Continues t)
    (Q := fun r => r.fault = none → ∃ k, s.spec.bound < s.spec.time (k + 1))
    ?still ?stuck ?start ?begun ?rest ?finish ?step ?halt hr hok
  case still => exact fun hcomplete => absurd hcomplete hc
  case stuck => exact fun _ hfault hok => absurd hok hfault
  case start =>
    intro _ _
    exact ⟨h.start hs.model, hs.continues (s.continues_start b), s.continues_start b⟩
  case begun => exact fun _ => ⟨h, hs, .refl s⟩
  case rest =>
    intro t _ ht hpass _
    rw [← ht.2.2.spec] at hpass ⊢
    exact ⟨t.step, ht.1.wouldPass_iff.mp hpass⟩
  case finish =>
    intro t _ ht hpass _
    rw [← ht.2.2.spec]
    exact ⟨t.step, ht.1.wouldPass_iff.mp hpass⟩
  case step =>
    intro t b ht _
    have hcont := t.continues_advance b
    exact ⟨ht.1.advance ht.2.1.model, ht.2.1.continues hcont, ht.2.2.trans hcont⟩
  case halt => exact fun _ _ _ hfault hok => absurd hok hfault

end StockFlow.Sim
