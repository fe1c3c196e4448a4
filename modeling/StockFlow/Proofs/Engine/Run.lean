import StockFlow.Proofs.Engine.Step

/-!
# What a run keeps

* `Sim.runTo_induction` — what a start gives and every step keeps, a run keeps
* `Sim.trail` — the states that a run goes through
* `Sim.forall_trail` — what a start gives and every step keeps holds of all of them
* `Sim.trailTo_induction` — what holds of steps along with the states that they lead to
* `Sim.values_runTo` — a run ends in the last of them
-/

namespace StockFlow.Sim

variable {α : Type} [Scalar α] {target : α} {fuel : Nat} {s : Sim α} {b : Board α} {r : Reached α}

/-! ## Induction over a run -/

/-- **What every step keeps, a run keeps.** `P` is kept from state to state, and `Q` holds where a
run stops: before a step, at the end, or in a step that does not get through. -/
theorem stepTo_induction {P : Sim α → Board α → Prop} {Q : Reached α → Prop}
    (rest : ∀ s b, P s b → s.wouldPass target = true → Q ⟨s, b, none⟩)
    (finish : ∀ s b, P s b → s.wouldPass s.spec.stop = true →
      Q ⟨{ s with phase := .complete }, b, none⟩)
    (step : ∀ s b, P s b → (s.advance b).fault = none → P (s.advance b).sim (s.advance b).board)
    (halt : ∀ s b, P s b → (s.advance b).fault ≠ none → Q (s.advance b))
    (hP : P s b) (h : stepTo target fuel s b = some r) : Q r := by
  induction fuel generalizing s b with
  | zero => cases h
  | succ fuel ih =>
    rw [stepTo] at h
    split at h
    · rename_i hend
      cases h
      exact finish s b hP hend
    · split at h
      · rename_i hpass
        cases h
        exact rest s b hP hpass
      · cases hf : (s.advance b).fault with
        | none =>
          simp only [hf] at h
          exact ih (step s b hP hf) h
        | some e =>
          simp only [hf, Option.some.injEq] at h
          rw [← h]
          exact halt s b hP (by rw [hf]; exact nofun)

/-- The ways of a run: nothing is left to do, the start fails, or there are steps. -/
theorem runTo_cases (h : s.runTo fuel target b = some r) :
    (s.phase = .complete ∧ r = ⟨s, b, none⟩) ∨
      (s.phase = .fresh ∧ (s.start b).fault ≠ none ∧ r = s.start b) ∨
      (s.phase = .fresh ∧ (s.start b).fault = none ∧
        stepTo target fuel (s.start b).sim (s.start b).board = some r) ∨
      (s.phase ≠ .fresh ∧ s.phase ≠ .complete ∧ stepTo target fuel s b = some r) := by
  unfold runTo prepare at h
  by_cases hc : s.phase = .complete
  · rw [if_pos hc] at h
    exact Or.inl ⟨hc, (Option.some.inj h).symm⟩
  · rw [if_neg hc] at h
    by_cases hp : s.phase = .fresh
    · simp only [if_pos hp] at h
      cases hf : (s.start b).fault with
      | none =>
        simp only [hf] at h
        exact Or.inr (Or.inr (Or.inl ⟨hp, rfl, h⟩))
      | some e =>
        simp only [hf, Option.some.injEq] at h
        exact Or.inr (Or.inl ⟨hp, nofun, h.symm⟩)
    · simp only [if_neg hp] at h
      exact Or.inr (Or.inr (Or.inr ⟨hp, hc, h⟩))

/-! ## The states of a run -/

/-- The states that steps up to a time lead to, in order. -/
def trailTo (target : α) : Nat → Sim α → Board α → List (Sim α)
  | 0, _, _ => []
  | fuel + 1, s, b =>
    if s.wouldPass s.spec.stop || s.wouldPass target then []
    else
      let r := s.advance b
      match r.fault with
      | none => r.sim :: trailTo target fuel r.sim r.board
      | some _ => []

/-- **The states that a run goes through,** the starting state among them if the run starts
there. -/
def trail (fuel : Nat) (target : α) (s : Sim α) (b : Board α) : List (Sim α) :=
  if s.phase = .complete then []
  else if s.phase = .fresh then
    let r := s.start b
    match r.fault with
    | none => r.sim :: trailTo target fuel r.sim r.board
    | some _ => []
  else trailTo target fuel s b

theorem trail_of_fresh (hp : s.phase = .fresh) (hok : (s.start b).fault = none) :
    s.trail fuel target b =
      (s.start b).sim :: trailTo target fuel (s.start b).sim (s.start b).board := by
  rw [trail, if_neg (by rw [hp]; exact nofun), if_pos hp]
  simp only [hok]

theorem trail_of_start_fault (hp : s.phase = .fresh) (hf : (s.start b).fault ≠ none) :
    s.trail fuel target b = [] := by
  rw [trail, if_neg (by rw [hp]; exact nofun), if_pos hp]
  cases he : (s.start b).fault with
  | none => exact absurd he hf
  | some e => simp only [he]

theorem trail_of_begun (hp : s.phase ≠ .fresh) (hc : s.phase ≠ .complete) :
    s.trail fuel target b = trailTo target fuel s b := by
  rw [trail, if_neg hc, if_neg hp]

theorem trail_of_complete (hc : s.phase = .complete) : s.trail fuel target b = [] := by
  rw [trail, if_pos hc]

/-- The row that a state is recorded as. -/
def row (s : Sim α) : α × List α :=
  (s.values.getD timeName Scalar.undefined,
    s.report.names.map fun name => s.values.getD name Scalar.undefined)

/-- Whether a state is recorded. -/
def isDue (s : Sim α) : Bool := s.step % s.saveEvery = 0

/-- What every step gives holds of every state that steps lead to, where `P` is what the next step
needs. -/
theorem forall_trailTo_of_step {P Q : Sim α → Board α → Prop}
    (step : ∀ s b, P s b → (s.advance b).fault = none →
      P (s.advance b).sim (s.advance b).board ∧ Q (s.advance b).sim (s.advance b).board)
    (hP : P s b) : ∀ t ∈ trailTo target fuel s b, ∃ b', Q t b' := by
  induction fuel generalizing s b with
  | zero => exact fun t ht => nomatch ht
  | succ fuel ih =>
    intro t ht
    rw [trailTo] at ht
    split at ht
    · cases ht
    · cases hf : (s.advance b).fault with
      | none =>
        simp only [hf] at ht
        obtain ⟨hnext, hgives⟩ := step s b hP hf
        rcases List.mem_cons.mp ht with rfl | hlater
        · exact ⟨_, hgives⟩
        · exact ih hnext t hlater
      | some e =>
        simp only [hf] at ht
        cases ht

/-- **What a start and every step give holds of every state of a run,** where `P` is what the next
step needs. -/
theorem forall_trail_of_step {P Q : Sim α → Board α → Prop}
    (start : s.phase = .fresh → (s.start b).fault = none →
      P (s.start b).sim (s.start b).board ∧ Q (s.start b).sim (s.start b).board)
    (begun : s.phase ≠ .fresh → P s b)
    (step : ∀ s b, P s b → (s.advance b).fault = none →
      P (s.advance b).sim (s.advance b).board ∧ Q (s.advance b).sim (s.advance b).board) :
    ∀ t ∈ s.trail fuel target b, ∃ b', Q t b' := by
  intro t ht
  by_cases hc : s.phase = .complete
  · rw [trail_of_complete hc] at ht
    cases ht
  · by_cases hp : s.phase = .fresh
    · by_cases hok : (s.start b).fault = none
      · obtain ⟨hfirst, hgives⟩ := start hp hok
        rw [trail_of_fresh hp hok] at ht
        rcases List.mem_cons.mp ht with rfl | hlater
        · exact ⟨_, hgives⟩
        · exact forall_trailTo_of_step step hfirst t hlater
      · rw [trail_of_start_fault hp hok] at ht
        cases ht
    · rw [trail_of_begun hp hc] at ht
      exact forall_trailTo_of_step step (begun hp) t ht

/-- **What a start gives and every step keeps holds of every state of a run.** -/
theorem forall_trail {P : Sim α → Board α → Prop}
    (start : s.phase = .fresh → (s.start b).fault = none → P (s.start b).sim (s.start b).board)
    (begun : s.phase ≠ .fresh → P s b)
    (step : ∀ s b, P s b → (s.advance b).fault = none → P (s.advance b).sim (s.advance b).board) :
    ∀ t ∈ s.trail fuel target b, ∃ b', P t b' :=
  forall_trail_of_step (fun hp hok => ⟨start hp hok, start hp hok⟩) begun
    fun s b hP hok => ⟨step s b hP hok, step s b hP hok⟩

/-- **What holds of steps that get through, along with the states that they lead to:** of none, and
of one more before others. -/
theorem trailTo_induction {R : Sim α → Board α → List (Sim α) → Reached α → Prop}
    (rest : ∀ s b, R s b [] ⟨s, b, none⟩)
    (finish : ∀ s b, R s b [] ⟨{ s with phase := .complete }, b, none⟩)
    (step : ∀ s b states r, (s.advance b).fault = none →
      R (s.advance b).sim (s.advance b).board states r → R s b ((s.advance b).sim :: states) r)
    (h : stepTo target fuel s b = some r) (hok : r.fault = none) :
    R s b (trailTo target fuel s b) r := by
  induction fuel generalizing s b with
  | zero => cases h
  | succ fuel ih =>
    rw [stepTo] at h
    rw [trailTo]
    by_cases hend : s.wouldPass s.spec.stop = true
    · rw [if_pos hend] at h
      cases h
      rw [hend, Bool.true_or, if_pos rfl]
      exact finish s b
    · rw [if_neg hend] at h
      by_cases hpass : s.wouldPass target = true
      · rw [if_pos hpass] at h
        cases h
        rw [hpass, Bool.or_true, if_pos rfl]
        exact rest s b
      · rw [if_neg hpass] at h
        rw [if_neg (by simp [hend, hpass])]
        cases hf : (s.advance b).fault with
        | some e =>
          simp only [hf, Option.some.injEq] at h
          rw [← h, hf] at hok
          cases hok
        | none =>
          simp only [hf] at h ⊢
          exact step s b _ r hf (ih h)

/-- Steps end in the last of the states that they lead to. -/
theorem values_stepTo (h : stepTo target fuel s b = some r) (hok : r.fault = none) :
    r.sim.values = ((trailTo target fuel s b).getLastD s).values := by
  refine trailTo_induction (R := fun s _ states r => r.sim.values = (states.getLastD s).values)
    (fun _ _ => rfl) (fun _ _ => rfl) ?_ h hok
  intro s b states r _ ih
  rw [ih, List.getLastD_cons]

/-- **A run that gets through ends in the last of the states that it goes through.** -/
theorem values_runTo (h : s.runTo fuel target b = some r) (hok : r.fault = none) :
    r.sim.values = ((s.trail fuel target b).getLastD s).values := by
  rcases runTo_cases h with ⟨hc, rfl⟩ | ⟨_, hf, rfl⟩ | ⟨hp, hstart, hr⟩ | ⟨hp, hc, hr⟩
  · rw [trail_of_complete hc]
    rfl
  · exact absurd hok hf
  · rw [trail_of_fresh hp hstart, List.getLastD_cons]
    exact values_stepTo hr hok
  · rw [trail_of_begun hp hc]
    exact values_stepTo hr hok

/-- What a start gives and every step keeps, as `stepTo_induction` for a whole run. -/
theorem runTo_induction {P : Sim α → Board α → Prop} {Q : Reached α → Prop}
    (still : s.phase = .complete → Q ⟨s, b, none⟩)
    (stuck : s.phase = .fresh → (s.start b).fault ≠ none → Q (s.start b))
    (start : s.phase = .fresh → (s.start b).fault = none → P (s.start b).sim (s.start b).board)
    (begun : s.phase ≠ .fresh → P s b)
    (rest : ∀ s b, P s b → s.wouldPass target = true → Q ⟨s, b, none⟩)
    (finish : ∀ s b, P s b → s.wouldPass s.spec.stop = true →
      Q ⟨{ s with phase := .complete }, b, none⟩)
    (step : ∀ s b, P s b → (s.advance b).fault = none → P (s.advance b).sim (s.advance b).board)
    (halt : ∀ s b, P s b → (s.advance b).fault ≠ none → Q (s.advance b))
    (h : s.runTo fuel target b = some r) : Q r := by
  rcases runTo_cases h with ⟨hc, rfl⟩ | ⟨hp, hf, rfl⟩ | ⟨hp, hok, hr⟩ | ⟨hp, _, hr⟩
  · exact still hc
  · exact stuck hp hf
  · exact stepTo_induction rest finish step halt (start hp hok) hr
  · exact stepTo_induction rest finish step halt (begun hp) hr

end StockFlow.Sim
