import StockFlow.Proofs.Engine.Life

/-!
# What can happen to a simulation

A simulation is run, its variables are set, and the board that it shares with others is asked and
written on and closed by whoever likes to.

* `Sim.History` — what happened to a simulation, with the faults on the way
* `Sim.History.alive_of_running` — on a board that nobody closes nothing goes wrong
* `Sim.History.condition` — no run has failed, or the simulation will never be whole again
-/

namespace StockFlow.Sim

variable {α : Type}

/-- What can happen to a simulation. -/
inductive Call (α : Type) where
  /-- It is run to a time. To run it to its end is to run it to the end of its span. -/
  | run (target : α)
  | set (name : String) (x : α)
  /-- Someone turns to the board. -/
  | request (q : Request α)

namespace Call

def IsRun : Call α → Prop
  | run _ => True
  | set _ _ | request _ => False

def IsClose : Call α → Prop
  | request .close => True
  | run _ | set _ _ | request _ => False

end Call

/-- What happened, with the fault that was answered if there was one. -/
abbrev Log (α : Type) := List (Call α × Option RunFault)

/-- No run was answered with a fault. -/
def Log.Untroubled (log : Log α) : Prop := ∀ e ∈ log, e.1.IsRun → e.2 = none

/-- Nobody closed the board. -/
def Log.KeptOpen (log : Log α) : Prop := ∀ e ∈ log, ¬e.1.IsClose

theorem Log.untroubled_snoc {log : Log α} {e : Call α × Option RunFault} :
    Log.Untroubled (log ++ [e]) ↔ log.Untroubled ∧ (e.1.IsRun → e.2 = none) := by
  simp only [Untroubled, List.mem_append, List.mem_singleton]
  constructor
  · intro h
    exact ⟨fun x hx => h x (Or.inl hx), h e (Or.inr rfl)⟩
  · rintro ⟨hlog, hlast⟩ x (hx | rfl)
    · exact hlog x hx
    · exact hlast

theorem Log.keptOpen_snoc {log : Log α} {e : Call α × Option RunFault} :
    Log.KeptOpen (log ++ [e]) ↔ log.KeptOpen ∧ ¬e.1.IsClose := by
  simp only [KeptOpen, List.mem_append, List.mem_singleton]
  constructor
  · intro h
    exact ⟨fun x hx => h x (Or.inl hx), h e (Or.inr rfl)⟩
  · rintro ⟨hlog, hlast⟩ x (hx | rfl)
    · exact hlog x hx
    · exact hlast

variable {s s₀ : Sim α} {b b₀ : Board α} {r : Reached α} {c : Call α}

/-! ## Setting a value -/

theorem mem_ruleNames_of_isOverridable {m : Model α} {n : String} (h : m.isOverridable n = true) :
    n ∈ ruleNames m.equations.flows := by
  obtain ⟨q, hq, hn⟩ := List.any_eq_true.mp h
  simp only [Bool.and_eq_true, decide_eq_true_eq] at hn
  exact hn.1 ▸ name_mem_ruleNames hq

/-- Setting a value is refused and changes nothing, or it writes on an open board. -/
theorem setValue_cases (s : Sim α) (name : String) (x : α) (b : Board α) :
    (∃ e, s.setValue name x b = ⟨s, b, some e⟩) ∨
      (b.isOpen = true ∧ name ∈ ruleNames s.model.equations.flows ∧
        s.setValue name x b = ⟨if s.phase = .fresh then s else s.assign name x,
          b.tick.pin s.id name x, none⟩) := by
  unfold setValue
  split
  · exact Or.inl ⟨_, rfl⟩
  · split
    · exact Or.inl ⟨_, rfl⟩
    · rename_i _ hover
      rw [Board.set_eq]
      cases hopen : b.isOpen with
      | false => exact Or.inl ⟨.stopped name, rfl⟩
      | true =>
        exact Or.inr ⟨rfl, mem_ruleNames_of_isOverridable (by simpa using hover), rfl⟩

theorem continues_setValue (s : Sim α) (name : String) (x : α) (b : Board α) :
    s.Continues (s.setValue name x b).sim := by
  rcases s.setValue_cases name x b with ⟨e, he⟩ | ⟨_, _, he⟩
  · rw [he]
    exact .refl s
  · rw [he]
    by_cases hp : s.phase = .fresh
    · rw [if_pos hp]
      exact .refl s
    · rw [if_neg hp]
      exact ⟨rfl, rfl, rfl, rfl, rfl, rfl⟩

theorem Running.assign (h : s.Running) (name : String) (x : α) : (s.assign name x).Running := by
  refine ⟨h.begun, ?_, h.rows⟩
  intro n hn
  by_cases he : name = n
  · subst he
    rw [getElem?_assign_self, Option.isSome_some]
  · rw [getElem?_assign_of_ne s x he]
    exact h.settled n hn

theorem Alive.setValue (h : s.Alive) (name : String) (x : α) (b : Board α) :
    (s.setValue name x b).sim.Alive := by
  rcases s.setValue_cases name x b with ⟨e, he⟩ | ⟨_, _, he⟩
  · rwa [he]
  · rw [he]
    by_cases hp : s.phase = .fresh
    · rwa [if_pos hp]
    · rw [if_neg hp]
      exact Or.inr ((h.running hp).assign name x)

theorem setValue_closed (hb : b.isOpen = false) (name : String) (x : α) :
    (s.setValue name x b).sim = s ∧ (s.setValue name x b).board = b := by
  rcases s.setValue_cases name x b with ⟨e, he⟩ | ⟨hopen, _⟩
  · rw [he]
    exact ⟨rfl, rfl⟩
  · rw [hb] at hopen
    cases hopen

/-! ## Requests of others -/

theorem serve_closed (hb : b.isOpen = false) (q : Request α) :
    (b.serve q).2 = b := by
  rw [Board.serve, hb]
  rfl

theorem isClose_of_remaining_serve {q : Request α} (hb : b.remaining = none)
    (hq : (b.serve q).2.remaining ≠ none) : (Call.request q).IsClose := by
  rw [Board.serve, if_pos (Board.isOpen_of_remaining_none hb)] at hq
  cases q with
  | close => trivial
  | get _ _ _ | set _ _ _ | forget _ =>
    refine absurd ?_ hq
    show b.remaining.map _ = none
    rw [hb, Option.map_none]

/-! ## Whole simulations -/

/-- All states that were due are recorded, and every recorded variable has a value. -/
structure Whole (s : Sim α) : Prop where
  rows : s.report.rows.size = s.step / s.saveEvery + 1
  values : ∀ n ∈ s.report.names, ∃ x, s.value n = .ok x

theorem value_ok_iff {n : String} : (∃ x, s.value n = .ok x) ↔ (s.values[n]?).isSome := by
  unfold value
  cases s.values[n]? <;> simp

theorem Running.whole (h : s.Running) (hs : s.Sound) : s.Whole := by
  refine ⟨h.rows, fun n hn => value_ok_iff.mpr (h.settled n (hs.model.recorded ?_))⟩
  rwa [← hs.names]

theorem Broken.not_whole (h : s.Broken b) : ¬s.Whole := by
  intro hw
  obtain ⟨q, _, hrec, hnone⟩ := h.lost
  have hsome := value_ok_iff.mp (hw.values q.name hrec)
  rw [hnone] at hsome
  cases hsome

/-! ## Calls -/

variable [Scalar α]

/-- What a call does. -/
inductive Performs (s : Sim α) (b : Board α) : Call α → Reached α → Prop
  | run {fuel : Nat} {target : α} {r : Reached α} (h : s.runTo fuel target b = some r) :
      Performs s b (.run target) r
  | set (name : String) (x : α) : Performs s b (.set name x) (s.setValue name x b)
  | request (q : Request α) : Performs s b (.request q) ⟨s, (b.serve q).2, none⟩

/-- **What happened to a simulation** since it was `s₀` and the board `b₀`. -/
inductive History (s₀ : Sim α) (b₀ : Board α) : Log α → Sim α → Board α → Prop
  | nil : History s₀ b₀ [] s₀ b₀
  | snoc {log : Log α} {s : Sim α} {b : Board α} {c : Call α} {r : Reached α}
      (before : History s₀ b₀ log s b) (h : Performs s b c r) :
      History s₀ b₀ (log ++ [(c, r.fault)]) r.sim r.board

theorem Performs.continues (h : Performs s b c r) : s.Continues r.sim := by
  cases h with
  | run hr => exact continues_runTo hr
  | set name x => exact s.continues_setValue name x b
  | request q => exact .refl s

/-- **What a call does where nothing went wrong before.** -/
theorem Alive.performs (h : s.Alive) (hs : s.Sound) (hc : Performs s b c r) :
    (c.IsRun → r.fault = none) ∧ r.sim.Alive ∨
      (c.IsRun ∧ r.fault ≠ none) ∧ (Stuck r.sim r.board ∨ Broken r.sim r.board) := by
  cases hc with
  | run hr =>
    rcases h.runTo hs hr with ⟨hok, hrun⟩ | ⟨hfault, hbad⟩
    · exact Or.inl ⟨fun _ => hok, Or.inr hrun⟩
    · exact Or.inr ⟨⟨trivial, hfault⟩, hbad⟩
  | set name x => exact Or.inl ⟨nofun, h.setValue name x b⟩
  | request q => exact Or.inl ⟨nofun, h⟩

/-- **What a call does where something went wrong before.** -/
theorem troubled_performs (h : s.Stuck b ∨ s.Broken b) (hs : s.Sound) (hc : Performs s b c r) :
    Stuck r.sim r.board ∨ Broken r.sim r.board := by
  have hclosed : b.isOpen = false := h.elim Stuck.closed Broken.closed
  cases hc with
  | run hr =>
    rcases h with hstuck | hbroken
    · exact Or.inl (hstuck.runTo hs hr).2
    · exact Or.inr (hbroken.runTo hs hr)
  | set name x =>
    obtain ⟨hsim, hboard⟩ := setValue_closed (s := s) hclosed name x
    rwa [hsim, hboard]
  | request q =>
    show Stuck s (b.serve q).2 ∨ Broken s (b.serve q).2
    rwa [serve_closed hclosed]

/-! ## Histories -/

variable {log : Log α}

theorem History.continues (h : History s₀ b₀ log s b) : s₀.Continues s := by
  induction h with
  | nil => exact .refl s₀
  | snoc _ hc ih => exact ih.trans hc.continues

/-- **No run has failed and nothing is amiss, or some run has failed and the simulation will never
be whole again.** -/
theorem History.condition (h : History s₀ b₀ log s b) (h₀ : s₀.Alive) (hs : s₀.Sound) :
    log.Untroubled ∧ s.Alive ∨ ¬log.Untroubled ∧ (s.Stuck b ∨ s.Broken b) := by
  induction h with
  | nil => exact Or.inl ⟨nofun, h₀⟩
  | snoc hbefore hc ih =>
    have hs' := hs.continues hbefore.continues
    rw [Log.untroubled_snoc]
    rcases ih with ⟨hlog, halive⟩ | ⟨hlog, hbad⟩
    · rcases halive.performs hs' hc with ⟨hok, halive'⟩ | ⟨⟨hrun, hfault⟩, hbad⟩
      · exact Or.inl ⟨⟨hlog, hok⟩, halive'⟩
      · exact Or.inr ⟨fun hall => hfault (hall.2 hrun), hbad⟩
    · exact Or.inr ⟨fun hall => hlog hall.1, troubled_performs hbad hs' hc⟩

/-! ## Boards that nobody closes -/

theorem Performs.remaining (h : Performs s b c r) (hb : b.remaining = none) (hc : ¬c.IsClose) :
    r.board.remaining = none := by
  cases h with
  | run hr => rwa [(spent_runTo hr).eq_of_running hb]
  | set name x =>
    rcases s.setValue_cases name x b with ⟨e, he⟩ | ⟨_, _, he⟩
    · rwa [he]
    · rw [he]
      show b.remaining.map _ = none
      rw [hb, Option.map_none]
  | request q => exact Decidable.not_not.mp fun hne => hc (isClose_of_remaining_serve hb hne)

theorem History.remaining (h : History s₀ b₀ log s b) (hlog : log.KeptOpen)
    (hb : b₀.remaining = none) : b.remaining = none := by
  induction h with
  | nil => exact hb
  | snoc _ hc ih =>
    obtain ⟨hbefore, hlast⟩ := Log.keptOpen_snoc.mp hlog
    exact hc.remaining (ih hbefore) hlast

/-- **On a board that nobody closes nothing goes wrong.** -/
theorem History.alive_of_running (h : History s₀ b₀ log s b) (h₀ : s₀.Alive) (hs : s₀.Sound)
    (hlog : log.KeptOpen) (hb : b₀.remaining = none) : s.Alive := by
  rcases h.condition h₀ hs with ⟨_, halive⟩ | ⟨_, hbad⟩
  · exact halive
  · have hopen := Board.isOpen_of_remaining_none (h.remaining hlog hb)
    rw [hbad.elim Stuck.closed Broken.closed] at hopen
    cases hopen

theorem Alive.fault_of_running {fuel : Nat} {target : α} (h : s.Alive) (hs : s.Sound)
    (hb : b.remaining = none) (hr : s.runTo fuel target b = some r) : r.fault = none := by
  rcases h.runTo hs hr with ⟨hok, _⟩ | ⟨_, hbad⟩
  · exact hok
  · have hopen := Board.isOpen_of_remaining_none hb
    rw [← (spent_runTo hr).eq_of_running hb, hbad.elim Stuck.closed Broken.closed] at hopen
    cases hopen

theorem Fresh.fault_start (h : s.Fresh) (hs : s.Sound) (hb : b.remaining = none) :
    (s.start b).fault = none := by
  rcases h.start hs (b := b) with ⟨hok, _⟩ | ⟨_, hstuck⟩
  · exact hok
  · have hopen := Board.isOpen_of_remaining_none hb
    rw [← (s.spent_start b).eq_of_running hb, hstuck.closed] at hopen
    cases hopen

theorem Running.fault_advance (h : s.Running) (hs : s.Sound) (hb : b.remaining = none) :
    (s.advance b).fault = none := by
  rcases h.advance hs (b := b) with ⟨hok, _⟩ | ⟨_, hbroken⟩
  · exact hok
  · have hopen := Board.isOpen_of_remaining_none hb
    rw [← (s.spent_advance b).eq_of_running hb, hbroken.closed] at hopen
    cases hopen

/-! ## Honest answers -/

/-- **What a run leaves that answers without a fault is whole exactly if no run before it has
failed.** -/
theorem History.whole_iff {fuel : Nat} {target : α} (h : History s₀ b₀ log s b) (h₀ : s₀.Alive)
    (hs : s₀.Sound) (hr : s.runTo fuel target b = some r) (hok : r.fault = none) :
    r.sim.Whole ↔ log.Untroubled := by
  have hs' := hs.continues h.continues
  rcases h.condition h₀ hs with ⟨hlog, halive⟩ | ⟨hlog, hstuck | hbroken⟩
  · rcases halive.runTo hs' hr with ⟨_, hrun⟩ | ⟨hfault, _⟩
    · have hsound := hs'.continues (continues_runTo hr)
      exact iff_of_true (hrun.whole hsound) hlog
    · exact absurd hok hfault
  · exact absurd hok (hstuck.runTo hs' hr).1
  · -- a broken simulation can be run to an end that it has passed already
    exact iff_of_false (hbroken.runTo hs' hr).not_whole hlog

end StockFlow.Sim
