import StockFlow.Proofs.Engine.History

/-!
# Balanced states

A state is balanced if every rule of a step holds in it: what the rule computes now is the value
that its variable has. Starting and stepping lead to balanced states. Setting a variable need not,
since it writes one value and computes none of those that were made from it.

* `Sim.balanced_trail` — all states that a run goes through are balanced
* `Sim.Steered` — runs and settings that got through, and the state that was computed last
* `Sim.Steered.setSince` — what settings change in that state
* `Sim.SetSince.balanced_iff` — when they leave it balanced
-/

namespace StockFlow.Sim

variable {α : Type} [Scalar α] {s s' t : Sim α} {b c : Board α} {r : Reached α} {fuel : Nat}
  {target : α}

/-! ## Rules that hold -/

/-- A rule holds: computing it gives the present value of its variable. -/
def Holds (s : Sim α) (b : Board α) (q : Rule α) : Prop :=
  ∃ x, s.value q.name = .ok x ∧ (s.eval q.formula b).1 = .ok x

/-- Every rule of a step holds. -/
def Balanced (s : Sim α) (b : Board α) : Prop := ∀ q ∈ s.model.equations.flows, s.Holds b q

omit [Scalar α] in
theorem value_eq_ok_iff {n : String} {x : α} : s.value n = .ok x ↔ s.values[n]? = some x := by
  unfold value
  cases s.values[n]? <;> simp

/-- On a board that nobody closes, a formula is computed exactly if it has a value. -/
theorem eval_eq_ok_iff (hb : b.remaining = none) {f : Formula α} {x : α} :
    (s.eval f b).1 = .ok x ↔ f.value? (s.setting b) = some x := by
  cases hres : s.eval f b with | mk res b' =>
  cases hres ▸ evaluated_eval s f b with
  | value h _ => simp [h]
  | unknown h _ => simp [h]
  | stopped closed spent _ =>
    rw [spent.eq_of_running hb, Board.isOpen_of_remaining_none hb] at closed
    cases closed

theorem holds_iff (hb : b.remaining = none) {q : Rule α} : s.Holds b q ↔
    ∃ x, s.values[q.name]? = some x ∧ q.formula.value? (s.setting b) = some x := by
  simp only [Holds, value_eq_ok_iff, eval_eq_ok_iff hb]

omit [Scalar α] in
/-- A simulation that goes on with the same values answers the same. -/
theorem Continues.setting_eq (h : s.Continues s') (hv : s'.values = s.values) (b : Board α) :
    s'.setting b = s.setting b := by
  unfold setting
  rw [hv, h.id, h.model, h.spec]

theorem Balanced.of_continues (hs : s.Balanced b) (hb : b.remaining = none) (h : s.Continues s')
    (hv : s'.values = s.values) : s'.Balanced b := by
  intro q hq
  rw [h.model] at hq
  rw [holds_iff hb, h.setting_eq hv, hv]
  exact (holds_iff hb).mp (hs q hq)

/-! ## Runs lead to balanced states -/

/-- Computing what a step computes makes its rules hold. -/
theorem Fulfils.balanced {v : Values α} (hf : s.Fulfils b s.model.equations.flows v)
    (hb : b.remaining = none) : (s.withValues v).Balanced b := fun q hq =>
  (holds_iff hb).mpr (hf.rules q hq)

theorem balanced_start (hm : s.model.Sound) (hb : b.remaining = none)
    (hok : (s.start b).fault = none) : (s.start b).sim.Balanced b := by
  obtain ⟨u, v, _, hv, hsim, _⟩ := start_ok hm hok
  have hbalanced : ((s.withValues u).withValues v).Balanced b := hv.balanced hb
  rw [hsim]
  exact hbalanced.of_continues hb ⟨rfl, rfl, rfl, rfl, rfl, rfl⟩ rfl

theorem balanced_advance (hm : s.model.Sound) (hb : b.remaining = none)
    (hok : (s.advance b).fault = none) : (s.advance b).sim.Balanced b := by
  obtain ⟨w, v, _, _, hv, hsim, _⟩ := advance_ok hm hok
  have hbalanced : ((s.moved w).withValues v).Balanced b := hv.balanced hb
  rw [hsim]
  exact hbalanced.of_continues hb
    ((continues_saveIfDue _).trans ⟨rfl, rfl, rfl, rfl, rfl, rfl⟩) (saveIfDue_values _)

/-- **All states that a run goes through are balanced,** whatever was set before it. -/
theorem balanced_trail (hs : s.Sound) (hb : b.remaining = none) :
    ∀ t ∈ s.trail fuel target b, t.Balanced b ∧ s.Continues t := by
  intro t ht
  have hstart : s.phase = .fresh → (s.start b).fault = none →
      ((s.start b).sim.Sound ∧ s.Continues (s.start b).sim ∧ (s.start b).board = b) ∧
        (s.start b).sim.Balanced b ∧ s.Continues (s.start b).sim := by
    intro _ hok
    have hcont := s.continues_start b
    exact ⟨⟨hs.continues hcont, hcont, (s.spent_start b).eq_of_running hb⟩,
      balanced_start hs.model hb hok, hcont⟩
  have hstep : ∀ t b', (t.Sound ∧ s.Continues t ∧ b' = b) → (t.advance b').fault = none →
      ((t.advance b').sim.Sound ∧ s.Continues (t.advance b').sim ∧ (t.advance b').board = b) ∧
        (t.advance b').sim.Balanced b ∧ s.Continues (t.advance b').sim := by
    rintro t b' ⟨hsound, hcont, rfl⟩ hok
    have hcont' := t.continues_advance b'
    exact ⟨⟨hsound.continues hcont', hcont.trans hcont', (t.spent_advance b').eq_of_running hb⟩,
      balanced_advance hsound.model hb hok, hcont.trans hcont'⟩
  obtain ⟨_, h⟩ := forall_trail_of_step (Q := fun t _ => t.Balanced b ∧ s.Continues t) hstart
    (fun _ => ⟨hs, .refl s, rfl⟩) hstep t ht
  exact h

/-- A run that computes something ends in a balanced state. -/
theorem balanced_runTo (hs : s.Sound) (hb : b.remaining = none)
    (hr : s.runTo fuel target b = some r) (hok : r.fault = none)
    (hmoved : s.trail fuel target b ≠ []) : r.sim.Balanced b := by
  obtain ⟨hbalanced, hcont⟩ := balanced_trail hs hb _ (List.getLast_mem hmoved)
  have hlast : r.sim.values = ((s.trail fuel target b).getLast hmoved).values := by
    rw [values_runTo hr hok, List.getLastD_eq_getLast?, List.getLast?_eq_getLast_of_ne_nil hmoved,
      Option.getD_some]
  refine hbalanced.of_continues hb ?_ hlast
  have hrun := continues_runTo hr
  exact ⟨hrun.id.trans hcont.id.symm, hrun.label.trans hcont.label.symm,
    hrun.model.trans hcont.model.symm, hrun.spec.trans hcont.spec.symm,
    hrun.saveEvery.trans hcont.saveEvery.symm, hrun.names.trans hcont.names.symm⟩

/-! ## Settings -/

omit [Scalar α] in
/-- A variable that can be set is computed by asking for its default. -/
theorem flow_of_isOverridable {m : Model α} {n : String} (h : m.isOverridable n = true) :
    ∃ q ∈ m.equations.flows, q.name = n ∧ q.formula.asked ≠ [] := by
  obtain ⟨q, hq, hboth⟩ := List.any_eq_true.mp h
  simp only [Bool.and_eq_true, decide_eq_true_eq] at hboth
  exact ⟨q, hq, hboth.1, List.ne_nil_of_mem (Formula.readsDefault_iff.mp hboth.2)⟩

/-- A state `t` that was computed, and what it has become by settings since. -/
structure SetSince (t : Sim α) (c : Board α) (s : Sim α) (b : Board α) : Prop where
  continues : t.Continues s
  wasRunning : c.remaining = none
  running : b.remaining = none
  balanced : t.Balanced c
  /-- The rules that ask for a default hold still. -/
  asking : ∀ q ∈ s.model.equations.flows, q.formula.asked ≠ [] → s.Holds b q
  /-- What other rules compute is not computed again. -/
  computed : ∀ q ∈ s.model.equations.flows, q.formula.asked = [] →
    s.values[q.name]? = t.values[q.name]?
  /-- Each value is the one that was computed or the one that is pinned. -/
  values : ∀ n, s.values[n]? = t.values[n]? ∨ s.values[n]? = b.pinned? s.id n

theorem SetSince.refl (hb : b.remaining = none) (hs : s.Balanced b) : SetSince s b s b :=
  ⟨.refl s, hb, hb, hs, fun q hq _ => hs q hq, fun _ _ _ => rfl, fun _ => Or.inl rfl⟩

/-- A run that computes nothing changes no value. -/
theorem SetSince.of_continues (h : SetSince t c s b) (hcont : s.Continues s')
    (hv : s'.values = s.values) : SetSince t c s' b where
  continues := h.continues.trans hcont
  wasRunning := h.wasRunning
  running := h.running
  balanced := h.balanced
  asking := by
    intro q hq hasks
    rw [hcont.model] at hq
    rw [holds_iff h.running, hcont.setting_eq hv, hv]
    exact (holds_iff h.running).mp (h.asking q hq hasks)
  computed := by
    rw [hcont.model, hv]
    exact h.computed
  values := by
    rw [hcont.id, hv]
    exact h.values

/-- **What settings leave is balanced exactly if they change no value that a rule of a step
computes.** Rules that ask for a default hold in any case. -/
theorem SetSince.balanced_iff (h : SetSince t c s b) :
    s.Balanced b ↔ ∀ q ∈ s.model.equations.flows, q.formula.asked = [] →
      (s.eval q.formula b).1 = (t.eval q.formula c).1 := by
  have hrecomputed : ∀ q ∈ s.model.equations.flows, q.formula.asked = [] →
      (s.Holds b q ↔ (s.eval q.formula b).1 = (t.eval q.formula c).1) := by
    intro q hq hasked
    obtain ⟨x, hx, heval⟩ := h.balanced q (h.continues.model ▸ hq)
    have hsame : s.value q.name = .ok x := by
      rw [value_eq_ok_iff, h.computed q hq hasked, ← value_eq_ok_iff]
      exact hx
    rw [heval]
    constructor
    · rintro ⟨y, hy, hevals⟩
      rw [hsame] at hy
      cases hy
      exact hevals
    · intro hevals
      exact ⟨x, hsame, hevals⟩
  constructor
  · intro hs q hq hasked
    exact (hrecomputed q hq hasked).mp (hs q hq)
  · intro hall q hq
    by_cases hasked : q.formula.asked = []
    · exact (hrecomputed q hq hasked).mpr (hall q hq hasked)
    · exact h.asking q hq hasked

omit [Scalar α] in
theorem isOverridable_of_setValue {name : String} {x : α}
    (hok : (s.setValue name x b).fault = none) : s.model.isOverridable name = true := by
  unfold setValue at hok
  split at hok
  · cases hok
  · split at hok
    · cases hok
    · rename_i _ hover
      simpa using hover

/-- **Setting a variable keeps what is known of the state that was computed last.** -/
theorem SetSince.setValue (h : SetSince t c s b) (hs : s.Sound) (hp : s.phase ≠ .fresh)
    {name : String} {x : α} (hok : (s.setValue name x b).fault = none) :
    SetSince t c (s.setValue name x b).sim (s.setValue name x b).board := by
  have hover := isOverridable_of_setValue hok
  rcases s.setValue_cases name x b with ⟨e, he⟩ | ⟨_, _, he⟩
  · rw [he] at hok
    cases hok
  rw [he, if_neg hp]
  have hrunning : (b.tick.pin s.id name x).remaining = none := by
    show b.remaining.map _ = none
    rw [h.running, Option.map_none]
  obtain ⟨own, hown, hname, hasks⟩ := flow_of_isOverridable hover
  refine ⟨h.continues.trans ⟨rfl, rfl, rfl, rfl, rfl, rfl⟩, h.wasRunning, hrunning, h.balanced,
    ?asking, ?computed, ?values⟩
  case asking =>
    intro q hq hq'
    obtain ⟨hform, _⟩ := hs.model.flows_asked q hq hq'
    rw [holds_iff hrunning]
    by_cases hn : name = q.name
    · refine ⟨x, by rw [← hn, getElem?_assign_self], ?_⟩
      rw [hform]
      exact (Board.lookup_pin ..).trans (if_pos ⟨rfl, hn⟩)
    · obtain ⟨y, hy, hval⟩ := (holds_iff h.running).mp (h.asking q hq hq')
      refine ⟨y, by rw [getElem?_assign_of_ne s x hn, hy], ?_⟩
      rw [hform] at hval ⊢
      exact ((Board.lookup_pin ..).trans (if_neg fun hboth => hn hboth.2)).trans hval
  case computed =>
    intro q hq hq'
    have hne : name ≠ q.name := by
      intro hn
      have hsame := List.inj_on_of_nodup_map hs.model.flows.nodup hown hq (hname.trans hn)
      exact hasks (hsame ▸ hq')
    rw [getElem?_assign_of_ne s x hne]
    exact h.computed q hq hq'
  case values =>
    intro n
    show (s.assign name x).values[n]? = _ ∨ _ = (b.tick.pin s.id name x).pinned? s.id n
    rw [Board.pinned?_pin]
    by_cases hn : name = n
    · exact Or.inr (by rw [if_pos ⟨rfl, hn⟩, ← hn, getElem?_assign_self])
    · rw [getElem?_assign_of_ne s x hn, if_neg fun hboth => hn hboth.2]
      exact h.values n

/-! ## Runs and settings -/

/-- **Runs and settings that got through** since the simulation was `s₀` and the board `b₀`, and the
state that a run computed last, if one did. -/
inductive Steered (s₀ : Sim α) (b₀ : Board α) :
    Option (Sim α × Board α) → Sim α → Board α → Prop
  | nil : Steered s₀ b₀ none s₀ b₀
  /-- A run that computes something. -/
  | moved {last : Option (Sim α × Board α)} {s : Sim α} {b : Board α} {fuel : Nat} {target : α}
      {r : Reached α} (before : Steered s₀ b₀ last s b) (h : s.runTo fuel target b = some r)
      (ok : r.fault = none) (moves : s.trail fuel target b ≠ []) :
      Steered s₀ b₀ (some (r.sim, r.board)) r.sim r.board
  /-- A run that finds nothing to compute. -/
  | rested {last : Option (Sim α × Board α)} {s : Sim α} {b : Board α} {fuel : Nat} {target : α}
      {r : Reached α} (before : Steered s₀ b₀ last s b) (h : s.runTo fuel target b = some r)
      (ok : r.fault = none) (rests : s.trail fuel target b = []) :
      Steered s₀ b₀ last r.sim r.board
  | set {last : Option (Sim α × Board α)} {s : Sim α} {b : Board α} {name : String} {x : α}
      (before : Steered s₀ b₀ last s b) (ok : (s.setValue name x b).fault = none) :
      Steered s₀ b₀ last (s.setValue name x b).sim (s.setValue name x b).board

variable {s₀ : Sim α} {b₀ : Board α} {last : Option (Sim α × Board α)}

/-- A run that computes nothing is one of a simulation that is started. -/
theorem phase_ne_fresh_of_trail_eq_nil (h : s.runTo fuel target b = some r) (hok : r.fault = none)
    (hrests : s.trail fuel target b = []) : s.phase ≠ .fresh := by
  intro hp
  rcases runTo_cases h with ⟨hc, _⟩ | ⟨_, hf, rfl⟩ | ⟨_, hstart, _⟩ | ⟨hbegun, _⟩
  · rw [hp] at hc
    cases hc
  · exact hf hok
  · rw [trail_of_fresh hp hstart] at hrests
    cases hrests
  · exact hbegun hp

omit [Scalar α] in
theorem phase_setValue (s : Sim α) (name : String) (x : α) (b : Board α) :
    (s.setValue name x b).sim.phase = s.phase := by
  rcases s.setValue_cases name x b with ⟨e, he⟩ | ⟨_, _, he⟩
  · rw [he]
  · rw [he]
    by_cases hp : s.phase = .fresh
    · rw [if_pos hp]
    · rw [if_neg hp]
      rfl

theorem Steered.continues (h : Steered s₀ b₀ last s b) : s₀.Continues s := by
  induction h with
  | nil => exact .refl s₀
  | moved _ hr _ _ ih | rested _ hr _ _ ih => exact ih.trans (continues_runTo hr)
  | set _ _ ih => exact ih.trans (continues_setValue ..)

theorem Steered.remaining (h : Steered s₀ b₀ last s b) (hb : b₀.remaining = none) :
    b.remaining = none := by
  induction h with
  | nil => exact hb
  | moved _ hr _ _ ih | rested _ hr _ _ ih => rwa [(spent_runTo hr).eq_of_running ih]
  | set _ _ ih => exact (Performs.set _ _).remaining ih fun hclose => hclose

/-- **Once something is computed, a simulation is in the state that was computed last, but for
settings since then.** -/
theorem Steered.setSince (h : Steered s₀ b₀ last s b) (hs : s₀.Sound) (hb : b₀.remaining = none)
    (hfresh : s₀.phase = .fresh) (hp : s.phase ≠ .fresh) :
    ∃ t c, last = some (t, c) ∧ SetSince t c s b := by
  induction h with
  | nil => exact absurd hfresh hp
  | @moved _ s b _ _ r before hr hok hmoves _ =>
    have hrunning := before.remaining hb
    have hboard := (spent_runTo hr).eq_of_running hrunning
    have hbalanced := balanced_runTo (hs.continues before.continues) hrunning hr hok hmoves
    rw [hboard]
    exact ⟨_, _, rfl, .refl hrunning hbalanced⟩
  | @rested last s b _ _ r before hr hok hrests ih =>
    have hbegun : s.phase ≠ .fresh := phase_ne_fresh_of_trail_eq_nil hr hok hrests
    obtain ⟨t, c, hlast, hsince⟩ := ih hbegun
    refine ⟨t, c, hlast, ?_⟩
    rw [(spent_runTo hr).eq_of_running hsince.running]
    exact hsince.of_continues (continues_runTo hr) (by rw [values_runTo hr hok, hrests]; rfl)
  | @set last s b name x before hok ih =>
    have hbegun : s.phase ≠ .fresh := phase_setValue s name x b ▸ hp
    obtain ⟨t, c, hlast, hsince⟩ := ih hbegun
    exact ⟨t, c, hlast, hsince.setValue (hs.continues before.continues) hbegun hok⟩

end StockFlow.Sim
