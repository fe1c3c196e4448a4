import StockFlow.Proofs.Engine.Report
import StockFlow.Proofs.Engine.Run
import Mathlib.Data.Nat.Basic

/-!
# The life of a simulation

* `Sim.Fresh`, `Sim.Running`, `Sim.Stuck`, `Sim.Broken` — the conditions that a simulation can be in
* `Sim.Fresh.start`, `Sim.Running.advance` — where starting and stepping lead
* `Sim.Alive.runTo`, `Sim.Stuck.runTo`, `Sim.Broken.runTo` — where a run leads
* `Sim.Alive.rows_runTo` — what a run records
-/

namespace StockFlow.Sim

variable {α : Type} {s s' : Sim α} {b b' : Board α}

/-- A simulation of a sound model that records what the model says. -/
structure Sound (s : Sim α) : Prop where
  model : s.model.Sound
  names : s.report.names = s.model.recorded

theorem Sound.continues (hs : s.Sound) (h : s.Continues s') : s'.Sound := by
  constructor
  · rw [h.model]
    exact hs.model
  · rw [h.names, h.model]
    exact hs.names

/-- Nothing is computed yet, and nothing is recorded. -/
structure Fresh (s : Sim α) : Prop where
  phase : s.phase = .fresh
  time : s.values[timeName]? = some s.spec.start
  step : s.step = 0
  rows : s.report.rows = #[]

/-- Every variable of a state has its value, and every state that was due is recorded. -/
structure Running (s : Sim α) : Prop where
  begun : s.phase ≠ .fresh
  settled : s.Settled
  rows : s.report.rows.size = s.step / s.saveEvery + 1

/-- A simulation that nothing went wrong with. -/
def Alive (s : Sim α) : Prop := s.Fresh ∨ s.Running

theorem Alive.fresh (h : s.Alive) (hp : s.phase = .fresh) : s.Fresh :=
  h.resolve_right fun hrun => hrun.begun hp

theorem Alive.running (h : s.Alive) (hp : s.phase ≠ .fresh) : s.Running :=
  h.resolve_left fun hf => hp hf.phase

/-- Nothing is computed yet, and no start will get through. -/
structure Stuck (s : Sim α) (b : Board α) : Prop where
  fresh : s.Fresh
  closed : b.isOpen = false
  asker : ∃ q, s.Asker q

/-- A recorded variable lost its value and will not get it back. -/
structure Broken (s : Sim α) (b : Board α) : Prop where
  begun : s.phase ≠ .fresh
  closed : b.isOpen = false
  lost : ∃ q, s.Asker q ∧ q.name ∈ s.report.names ∧ s.values[q.name]? = none

theorem fresh_create (id : SimId) (label : String) (model : Model α) (spec : Timespec α)
    (saveEvery : Nat) : (create id label model spec saveEvery).Fresh :=
  ⟨rfl, by rw [create, getElem?_insert_values, if_pos rfl], rfl, rfl⟩

theorem sound_create {model : Model α} (hm : model.Sound) (id : SimId) (label : String)
    (spec : Timespec α) (saveEvery : Nat) : (create id label model spec saveEvery).Sound :=
  ⟨hm, rfl⟩

variable [Scalar α] {target : α} {fuel : Nat} {r : Reached α}

/-! ## Starting -/

theorem save_rows (s : Sim α) : s.save.report.rows = s.report.rows.push s.row :=
  s.report.rows_push _ _

theorem saveIfDue_rows (s : Sim α) :
    s.saveIfDue.report.rows = if s.isDue then s.report.rows.push s.row else s.report.rows := by
  unfold saveIfDue isDue
  by_cases h : s.step % s.saveEvery = 0
  · rw [if_pos h, if_pos (decide_eq_true h), save_rows]
  · rw [if_neg h, if_neg (by simpa using h)]

/-- **A start leads to a running simulation, or a closed board keeps it from ever getting
through.** -/
theorem Fresh.start (hf : s.Fresh) (hs : s.Sound) :
    (s.start b).fault = none ∧ (s.start b).sim.Running ∨
      (s.start b).fault ≠ none ∧ Stuck (s.start b).sim (s.start b).board := by
  have ht : (s.values[timeName]?).isSome := by rw [hf.time, Option.isSome_some]
  rcases start_cases hs.model (b := b) ht with hok | hhalt
  · refine Or.inl ⟨hok, ?_⟩
    have hset := settled_start hs.model ht hok
    obtain ⟨u, v, _, _, hsim, _⟩ := start_ok hs.model hok
    rw [hsim] at hset ⊢
    refine ⟨nofun, hset, ?_⟩
    show (s.withValues v).save.report.rows.size = s.step / s.saveEvery + 1
    rw [save_rows, Array.size_push, show (s.withValues v).report.rows = #[] from hf.rows, hf.step,
      Nat.zero_div]
    rfl
  · obtain ⟨hfault, hclosed, ⟨q, hq⟩, v, hv, htime⟩ := hhalt
    refine Or.inr ⟨hfault, ?_, hclosed, q, ?_⟩
    · rw [hv]
      exact ⟨hf.phase, htime.trans hf.time, hf.step, hf.rows⟩
    · rw [hv]
      exact hq

/-- A start records the starting state, which is due. -/
theorem Fresh.rows_start (hf : s.Fresh) (hs : s.Sound) (hok : (s.start b).fault = none) :
    (s.start b).sim.report.rows = #[(s.start b).sim.row] ∧ (s.start b).sim.isDue = true := by
  obtain ⟨u, v, _, _, hsim, _⟩ := start_ok hs.model hok
  rw [hsim]
  constructor
  · show (s.withValues v).save.report.rows = #[(s.withValues v).row]
    rw [save_rows, show (s.withValues v).report.rows = #[] from hf.rows]
    rfl
  · show decide (s.step % s.saveEvery = 0) = true
    rw [hf.step, Nat.zero_mod, decide_eq_true rfl]

/-- On a closed board nothing gets started that asks for a default. -/
theorem Stuck.start (h : s.Stuck b) (hs : s.Sound) :
    (s.start b).fault ≠ none ∧ Stuck (s.start b).sim (s.start b).board := by
  rcases h.fresh.start hs (b := b) with ⟨hok, _⟩ | hhalt
  · obtain ⟨q, hq⟩ := h.asker
    -- a start that got through would have served the rule that asks
    unfold Sim.start at hok
    have hboth := Reached.ok_of_andThen hok
    have hi := Reached.ok_of_andThen hboth
    obtain ⟨u, hu, hspent, _⟩ := apply_ok hs.model.initials hi
    rw [Reached.andThen_of_ok hi, hu] at hboth
    have hclosed := hspent.isOpen_eq_false h.closed
    exact absurd hboth (apply_closed hs.model.flows.nodup hclosed hq.1 hq.2).1
  · exact hhalt

/-! ## Stepping -/

theorem step_advance (hs : s.Sound) (hok : (s.advance b).fault = none) :
    (s.advance b).sim.step = s.step + 1 := by
  obtain ⟨w, v, _, _, _, hsim, _⟩ := advance_ok hs.model hok
  rw [hsim]
  exact saveIfDue_step _

/-- A step records the state it leads to if that is due. -/
theorem rows_advance (hs : s.Sound) (hok : (s.advance b).fault = none) :
    (s.advance b).sim.report.rows =
      if (s.advance b).sim.isDue then s.report.rows.push (s.advance b).sim.row
      else s.report.rows := by
  obtain ⟨w, v, _, _, _, hsim, _⟩ := advance_ok hs.model hok
  have hdue : (s.advance b).sim.isDue = ((s.moved w).withValues v).isDue := by
    rw [hsim]
    unfold isDue
    simp only [saveIfDue_step, (continues_saveIfDue _).saveEvery]
  have hrow : (s.advance b).sim.row = ((s.moved w).withValues v).row := by
    rw [hsim]
    unfold row
    simp only [saveIfDue_values, (continues_saveIfDue _).names]
  rw [hdue, hrow, hsim]
  exact saveIfDue_rows _

/-- **A step leads to a running simulation, or a closed board breaks it.** -/
theorem Running.advance (h : s.Running) (hs : s.Sound) :
    (s.advance b).fault = none ∧ (s.advance b).sim.Running ∨
      (s.advance b).fault ≠ none ∧ Broken (s.advance b).sim (s.advance b).board := by
  rcases advance_cases hs.model h.settled (b := b) with hok | hhalt
  · refine Or.inl ⟨hok, ?_⟩
    have hset := settled_advance hs.model hok
    have hphase : (s.advance b).sim.phase = .stepping := by
      obtain ⟨w, v, _, _, _, hsim, _⟩ := advance_ok hs.model hok
      rw [hsim]
    refine ⟨by rw [hphase]; exact nofun, hset, ?_⟩
    rw [rows_advance hs hok, isDue, step_advance hs hok, (s.continues_advance b).saveEvery,
      Nat.succ_div]
    -- a row is added just where the number of rows that is asked for grows
    by_cases hdue : (s.step + 1) % s.saveEvery = 0
    · rw [if_pos (decide_eq_true hdue), if_pos (Nat.dvd_of_mod_eq_zero hdue), Array.size_push,
        h.rows]
    · rw [if_neg (by simpa using hdue), if_neg (fun hd => hdue (Nat.mod_eq_zero_of_dvd hd)),
        h.rows]
  · obtain ⟨hfault, hclosed, w, v, q, hv, hq, hnone⟩ := hhalt
    refine Or.inr ⟨hfault, ?_, hclosed, q, ?_⟩
    · rw [hv]
      exact h.begun
    · rw [hv]
      refine ⟨hq, ?_, hnone⟩
      show q.name ∈ s.report.names
      rw [hs.names]
      exact (hs.model.flows_asked q hq.1 hq.2).2.2

/-- A broken simulation makes no step. -/
theorem Broken.advance (h : s.Broken b) (hs : s.Sound) :
    (s.advance b).fault ≠ none ∧ Broken (s.advance b).sim (s.advance b).board := by
  obtain ⟨q, hq, hrec, hnone⟩ := h.lost
  obtain ⟨hfault, hclosed, hvalue⟩ := advance_closed hs.model h.closed hq hnone
  have hcont := s.continues_advance b
  refine ⟨hfault, ?_, hclosed, q, ?_, ?_, hvalue⟩
  · rw [phase_advance_of_fault hfault]
    exact h.begun
  · exact ⟨by rw [hcont.model]; exact hq.1, hq.2⟩
  · rw [hcont.names]
    exact hrec

/-! ## Runs -/

theorem continues_runTo (h : s.runTo fuel target b = some r) : s.Continues r.sim := by
  refine runTo_induction (P := fun t _ => s.Continues t) (Q := fun r => s.Continues r.sim)
    ?still ?stuck ?start ?begun ?rest ?finish ?step ?halt h
  case still | begun => exact fun _ => .refl s
  case stuck | start => exact fun _ _ => s.continues_start b
  case rest => exact fun _ _ ht _ => ht
  case finish => exact fun _ _ ht _ => ht.trans ⟨rfl, rfl, rfl, rfl, rfl, rfl⟩
  case step | halt => exact fun t b ht _ => ht.trans (t.continues_advance b)

theorem spent_runTo (h : s.runTo fuel target b = some r) : b.Spent r.board := by
  refine runTo_induction (P := fun _ b' => b.Spent b') (Q := fun r => b.Spent r.board)
    ?still ?stuck ?start ?begun ?rest ?finish ?step ?halt h
  case still | begun => exact fun _ => .refl b
  case stuck | start => exact fun _ _ => s.spent_start b
  case rest | finish => exact fun _ _ hb _ => hb
  case step | halt => exact fun t b' hb _ => hb.trans (t.spent_advance b')

/-- **What a run records:** a row for each state that was due, in order. -/
theorem Running.rows_stepTo (h : s.Running) (hs : s.Sound)
    (hr : Sim.stepTo target fuel s b = some r) (hok : r.fault = none) :
    r.sim.report.rows.toList =
      s.report.rows.toList ++ ((trailTo target fuel s b).filter isDue).map row := by
  refine trailTo_induction (R := fun s _ states r => s.Running → s.Sound →
    r.sim.report.rows.toList = s.report.rows.toList ++ (states.filter isDue).map row)
    ?rest ?finish ?step hr hok h hs
  case rest | finish => exact fun _ _ _ _ => (List.append_nil _).symm
  case step =>
    intro s b states r hf ih hrun hs
    have hnext := (hrun.advance hs (b := b)).resolve_right fun hbad => hbad.1 hf
    rw [ih hnext.2 (hs.continues (s.continues_advance b)), rows_advance hs hf, List.filter_cons]
    cases (s.advance b).sim.isDue with
    | false => rfl
    | true =>
      rw [if_pos rfl, if_pos rfl, Array.toList_push, List.map_cons, List.append_assoc,
        List.singleton_append]

/-- How a run that began well can end: well, or broken off by a closed board. -/
def EndsWell (r : Reached α) : Prop :=
  r.fault = none ∧ r.sim.Running ∨
    r.fault ≠ none ∧ (Stuck r.sim r.board ∨ Broken r.sim r.board)

/-- Starting and stepping as `runTo_induction` asks for it. -/
theorem Running.advance_of_ok {t : Sim α} (ht : t.Running ∧ t.Sound ∧ s.Continues t)
    (hok : (t.advance b).fault = none) :
    (t.advance b).sim.Running ∧ (t.advance b).sim.Sound ∧ s.Continues (t.advance b).sim := by
  have hcont := t.continues_advance b
  have hnext := (ht.1.advance ht.2.1 (b := b)).resolve_right fun hbad => hbad.1 hok
  exact ⟨hnext.2, ht.2.1.continues hcont, ht.2.2.trans hcont⟩

theorem Alive.start_of_ok (h : s.Alive) (hs : s.Sound) (hp : s.phase = .fresh)
    (hok : (s.start b).fault = none) :
    (s.start b).sim.Running ∧ (s.start b).sim.Sound ∧ s.Continues (s.start b).sim := by
  have hcont := s.continues_start b
  have hrun := ((h.fresh hp).start hs (b := b)).resolve_right fun hbad => hbad.1 hok
  exact ⟨hrun.2, hs.continues hcont, hcont⟩

/-- **A run ends well, or a closed board breaks it off.** -/
theorem Alive.runTo (h : s.Alive) (hs : s.Sound) (hr : s.runTo fuel target b = some r) :
    EndsWell r := by
  refine runTo_induction (P := fun t _ => t.Running ∧ t.Sound ∧ s.Continues t) (Q := EndsWell)
    ?still ?stuck (h.start_of_ok hs) ?begun ?rest ?finish ?step ?halt hr
  case still =>
    intro hc
    exact Or.inl ⟨rfl, h.running (by rw [hc]; exact nofun)⟩
  case stuck =>
    intro hp hfault
    have hstuck := ((h.fresh hp).start hs (b := b)).resolve_left fun hgood => hfault hgood.1
    exact Or.inr ⟨hfault, Or.inl hstuck.2⟩
  case begun => exact fun hp => ⟨h.running hp, hs, .refl s⟩
  case rest => exact fun t _ ht _ => Or.inl ⟨rfl, ht.1⟩
  case finish =>
    intro t _ ht _
    exact Or.inl ⟨rfl, nofun, ht.1.settled.congr rfl rfl, ht.1.rows⟩
  case step => exact fun t b ht hok => Running.advance_of_ok ht hok
  case halt =>
    intro t b ht hfault
    have hbroken := (ht.1.advance ht.2.1 (b := b)).resolve_left fun hgood => hfault hgood.1
    exact Or.inr ⟨hfault, Or.inr hbroken.2⟩

/-- **A run goes through states in which every name of a state has a value.** -/
theorem Alive.forall_trail (h : s.Alive) (hs : s.Sound) :
    ∀ t ∈ s.trail fuel target b, t.Settled ∧ s.Continues t := by
  intro t ht
  obtain ⟨_, hrun, _, hcont⟩ :=
    Sim.forall_trail (P := fun t _ => t.Running ∧ t.Sound ∧ s.Continues t) (h.start_of_ok hs)
      (fun hp => ⟨h.running hp, hs, .refl s⟩) (fun t b ht hok => Running.advance_of_ok ht hok) t ht
  exact ⟨hrun.settled, hcont⟩

/-- **A run that gets through adds a row for each state that was due,** in order. -/
theorem Alive.rows_runTo (h : s.Alive) (hs : s.Sound) (hr : s.runTo fuel target b = some r)
    (hok : r.fault = none) : r.sim.report.rows.toList =
      s.report.rows.toList ++ ((s.trail fuel target b).filter isDue).map row := by
  rcases runTo_cases hr with ⟨hc, rfl⟩ | ⟨_, hfault, rfl⟩ | ⟨hp, hstart, hr⟩ | ⟨hp, hc, hr⟩
  · simp [trail_of_complete hc]
  · exact absurd hok hfault
  · obtain ⟨hrun, hs', _⟩ := h.start_of_ok hs hp hstart
    obtain ⟨hrows, hdue⟩ := (h.fresh hp).rows_start hs hstart
    rw [trail_of_fresh hp hstart, hrun.rows_stepTo hs' hr hok, hrows, (h.fresh hp).rows,
      List.filter_cons_of_pos hdue]
    rfl
  · rw [trail_of_begun hp hc]
    exact (h.running hp).rows_stepTo hs hr hok

/-- **Where no start gets through, no run does.** -/
theorem Stuck.runTo (h : s.Stuck b) (hs : s.Sound) (hr : s.runTo fuel target b = some r) :
    r.fault ≠ none ∧ Stuck r.sim r.board := by
  have hstart := h.start hs
  rcases runTo_cases hr with ⟨hc, _⟩ | ⟨_, _, rfl⟩ | ⟨_, hok, _⟩ | ⟨hp, _, _⟩
  · rw [h.fresh.phase] at hc
    cases hc
  · exact hstart
  · exact absurd hok hstart.1
  · exact absurd h.fresh.phase hp

/-- **What is broken stays broken,** also where a run answers that nothing went wrong. -/
theorem Broken.runTo (h : s.Broken b) (hs : s.Sound) (hr : s.runTo fuel target b = some r) :
    Broken r.sim r.board := by
  refine runTo_induction (P := fun t b => t.Broken b ∧ t.Sound)
    (Q := fun r => Broken r.sim r.board) ?still ?stuck ?start ?begun ?rest ?finish ?step ?halt hr
  case still => exact fun _ => h
  case stuck | start => exact fun hp => absurd hp h.begun
  case begun => exact fun _ => ⟨h, hs⟩
  case rest => exact fun _ _ ht _ => ht.1
  -- this is where a run answers well although a value is lost: it makes no step any more
  case finish => exact fun _ _ ht _ => ⟨nofun, ht.1.closed, ht.1.lost⟩
  case step => exact fun t b ht hok => absurd hok (ht.1.advance ht.2).1
  case halt => exact fun t b ht _ => (ht.1.advance ht.2).2

end StockFlow.Sim
