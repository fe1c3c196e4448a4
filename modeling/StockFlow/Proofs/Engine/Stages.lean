import StockFlow.Proofs.Engine.Life

/-!
# Runs in stages

* `Sim.runThrough` — a simulation is run to one time after the other
* `Sim.Covers` — a run to one time leads at least as far as a run to another
* `Sim.runTo_covered` — a run to a time that is covered already changes nothing
* `Sim.runTo_of_stage` — a run goes on from where a shorter one stopped
* `Sim.runThrough_iff_runTo` — runs in stages lead where one run to the last of the times leads
-/

namespace StockFlow.Sim

variable {α : Type} [Scalar α] {s s' : Sim α} {b : Board α} {r r' : Reached α} {t u : α}
  {fuel fuel' : Nat}

/-- Runs a simulation to one time after the other, in at most `fuel` steps each. Where a run fails
there is no other. -/
def runThrough (fuel : Nat) : List α → Sim α → Board α → Option (Reached α)
  | [], s, b => some ⟨s, b, none⟩
  | t :: ts, s, b =>
    match s.runTo fuel t b with
    | none => none
    | some r =>
      match r.fault with
      | none => runThrough fuel ts r.sim r.board
      | some _ => some r

/-- **A run to `u` leads at least as far as a run to `t`:** what the one may not pass, the other may
not pass either. -/
def Covers (s : Sim α) (u t : α) : Prop :=
  ∀ x, Scalar.less (s.nudged u) x = true → Scalar.less (s.nudged t) x = true

theorem Covers.wouldPass (h : s.Covers u t) (hpass : s.wouldPass u = true) :
    s.wouldPass t = true :=
  h _ hpass

theorem Covers.continues (h : s.Covers u t) (hs : s.Continues s') : s'.Covers u t := by
  unfold Covers nudged
  rw [hs.spec]
  exact h

/-! ## Answers and the number of steps that are allowed -/

section

variable {n : Nat}

theorem stepTo_of_end (hend : s.wouldPass s.spec.stop = true) :
    stepTo t (n + 1) s b = some ⟨{ s with phase := .complete }, b, none⟩ := by
  rw [stepTo, if_pos hend]

variable (hend : ¬s.wouldPass s.spec.stop = true)
include hend

theorem stepTo_of_pass (hpass : s.wouldPass t = true) :
    stepTo t (n + 1) s b = some ⟨s, b, none⟩ := by
  rw [stepTo, if_neg hend, if_pos hpass]

variable (hpass : ¬s.wouldPass t = true)
include hpass

theorem stepTo_of_ok (hok : (s.advance b).fault = none) :
    stepTo t (n + 1) s b = stepTo t n (s.advance b).sim (s.advance b).board := by
  rw [stepTo, if_neg hend, if_neg hpass]
  simp only [hok]

theorem stepTo_of_fault {e : RunFault} (hf : (s.advance b).fault = some e) :
    stepTo t (n + 1) s b = some (s.advance b) := by
  rw [stepTo, if_neg hend, if_neg hpass]
  simp only [hf]

end

theorem stepTo_mono (h : stepTo t fuel s b = some r) (hle : fuel ≤ fuel') :
    stepTo t fuel' s b = some r := by
  obtain ⟨more, rfl⟩ := Nat.exists_eq_add_of_le' hle
  clear hle
  fun_induction stepTo t fuel s b with
  | case1 => cases h
  | case2 fuel s b hend => exact (stepTo_of_end hend).trans h
  | case3 fuel s b hend hpass => exact (stepTo_of_pass hend hpass).trans h
  | case4 fuel s b hend hpass _ hok ih => exact (stepTo_of_ok hend hpass hok).trans (ih h)
  | case5 fuel s b hend hpass _ e hf => exact (stepTo_of_fault hend hpass hf).trans h

theorem runTo_of_complete (hc : s.phase = .complete) : s.runTo fuel t b = some ⟨s, b, none⟩ := by
  rw [runTo, if_pos hc]

theorem runTo_of_begun (hp : s.phase ≠ .fresh) (hc : s.phase ≠ .complete) :
    s.runTo fuel t b = stepTo t fuel s b := by
  rw [runTo, if_neg hc, prepare, if_neg hp]

theorem runTo_of_start (hp : s.phase = .fresh) (hok : (s.start b).fault = none) :
    s.runTo fuel t b = stepTo t fuel (s.start b).sim (s.start b).board := by
  rw [runTo, if_neg (hp.trans_ne (by decide)), prepare, if_pos hp]
  simp only [hok]

theorem runTo_of_start_fault (hp : s.phase = .fresh) (hf : (s.start b).fault ≠ none) :
    s.runTo fuel t b = some (s.start b) := by
  rw [runTo, if_neg (hp.trans_ne (by decide)), prepare, if_pos hp]
  cases he : (s.start b).fault with
  | none => exact absurd he hf
  | some e => simp only [he]

theorem runTo_mono (h : s.runTo fuel t b = some r) (hle : fuel ≤ fuel') :
    s.runTo fuel' t b = some r := by
  rcases runTo_cases h with ⟨hc, rfl⟩ | ⟨hp, hf, rfl⟩ | ⟨hp, hok, hr⟩ | ⟨hp, hc, hr⟩
  · exact runTo_of_complete hc
  · exact runTo_of_start_fault hp hf
  · rw [runTo_of_start hp hok]
    exact stepTo_mono hr hle
  · rw [runTo_of_begun hp hc]
    exact stepTo_mono hr hle

theorem runThrough_mono {ts : List α} (h : runThrough fuel ts s b = some r) (hle : fuel ≤ fuel') :
    runThrough fuel' ts s b = some r := by
  induction ts generalizing s b with
  | nil => exact h
  | cons t ts ih =>
    rw [runThrough] at h ⊢
    cases hr : s.runTo fuel t b with
    | none =>
      simp only [hr, reduceCtorEq] at h
    | some r₁ =>
      simp only [hr, runTo_mono hr hle] at h ⊢
      cases hf : r₁.fault with
      | some e =>
        simp only [hf] at h ⊢
        exact h
      | none =>
        simp only [hf] at h ⊢
        exact ih h

/-! ## A time that is covered -/

theorem phase_start_of_ok (hok : (s.start b).fault = none) :
    (s.start b).sim.phase = .initialized := by
  unfold start at hok ⊢
  rw [Reached.andThen_of_ok (Reached.ok_of_andThen hok)]

theorem phase_advance_of_ok (hok : (s.advance b).fault = none) :
    (s.advance b).sim.phase = .stepping := by
  cases he : s.evalAll b ∅ s.model.equations.stocks with | mk res b' =>
  cases res with
  | error e => rw [advance_of_error he] at hok; cases hok
  | ok w =>
    rw [advance_of_ok he] at hok ⊢
    rw [Reached.andThen_of_ok (Reached.ok_of_andThen hok)]

/-- A simulation that a run to `t` would leave as it is. -/
def AtRest (s : Sim α) (t : α) : Prop :=
  s.phase = .complete ∨
    s.phase ≠ .fresh ∧ s.wouldPass s.spec.stop = false ∧ s.wouldPass t = true

theorem AtRest.runTo (h : s.AtRest t) (fuel : Nat) :
    s.runTo (fuel + 1) t b = some ⟨s, b, none⟩ := by
  rcases h with hc | ⟨hp, hend, hpass⟩
  · exact runTo_of_complete hc
  · by_cases hc : s.phase = .complete
    · exact runTo_of_complete hc
    · rw [runTo_of_begun hp hc, stepTo, hend, if_neg Bool.false_ne_true, if_pos hpass]

theorem AtRest.covered (h : s.AtRest u) (hcov : s.Covers u t) : s.AtRest t :=
  h.imp_right fun ⟨hp, hend, hpass⟩ => ⟨hp, hend, hcov.wouldPass hpass⟩

/-- Steps that get through lead to a simulation at rest. -/
theorem atRest_stepTo (hp : s.phase ≠ .fresh) (h : stepTo t fuel s b = some r)
    (hok : r.fault = none) : r.sim.AtRest t := by
  fun_induction stepTo t fuel s b with
  | case1 => cases h
  | case2 =>
    cases h
    exact Or.inl rfl
  | case3 fuel s b hend hpass =>
    cases h
    exact Or.inr ⟨hp, Bool.eq_false_iff.mpr hend, hpass⟩
  | case4 fuel s b hend hpass _ hstep ih =>
    exact ih ((phase_advance_of_ok hstep).trans_ne (by decide)) h
  | case5 fuel s b hend hpass _ e hf =>
    rw [← Option.some.inj h] at hok
    cases hf.symm.trans hok

/-- **A run that gets through leaves a simulation at rest.** -/
theorem atRest_runTo (h : s.runTo fuel t b = some r) (hok : r.fault = none) : r.sim.AtRest t := by
  rcases runTo_cases h with ⟨hc, rfl⟩ | ⟨_, hf, rfl⟩ | ⟨_, hstart, hr⟩ | ⟨hp, _, hr⟩
  · exact Or.inl hc
  · exact absurd hok hf
  · exact atRest_stepTo ((phase_start_of_ok hstart).trans_ne (by decide)) hr hok
  · exact atRest_stepTo hp hr hok

/-- **A run to a time that is covered already changes nothing.** -/
theorem runTo_covered (h : s.runTo fuel u b = some r) (hok : r.fault = none) (hcov : s.Covers u t)
    (fuel' : Nat) : r.sim.runTo (fuel' + 1) t r.board = some r := by
  have hcov' := hcov.continues (continues_runTo h)
  rw [((atRest_runTo h hok).covered hcov').runTo fuel', ← hok]

/-- Nor do runs to several such times. -/
theorem runThrough_covered {ts : List α} (h : s.AtRest u) (hcov : ∀ t ∈ ts, s.Covers u t) :
    runThrough 1 ts s b = some ⟨s, b, none⟩ := by
  induction ts with
  | nil => rfl
  | cons t ts ih =>
    obtain ⟨hfirst, hrest⟩ := List.forall_mem_cons.mp hcov
    rw [runThrough, (h.covered hfirst).runTo 0]
    exact ih hrest

/-! ## A run in two stages -/

theorem exists_stepTo_iff {f : Nat → Option (Reached α)} (h : ∀ n, stepTo u (n + 1) s b = f n) :
    (∃ n, stepTo u n s b = some r') ↔ ∃ n, f n = some r' := by
  constructor
  · rintro ⟨n, hn⟩
    cases n with
    | zero => cases hn
    | succ n => exact ⟨n, (h n).symm.trans hn⟩
  · rintro ⟨n, hn⟩
    exact ⟨n + 1, (h n).trans hn⟩

/-- **Steps go on from where fewer of them stopped.** -/
theorem stepTo_of_stage (hcov : s.Covers u t) (hp : s.phase ≠ .fresh) (hc : s.phase ≠ .complete)
    (h : stepTo t fuel s b = some r) (hok : r.fault = none) :
    (∃ n, r.sim.runTo n u r.board = some r') ↔ ∃ n, stepTo u n s b = some r' := by
  fun_induction stepTo t fuel s b with
  | case1 => cases h
  | case2 fuel s b hend =>
    -- the end is reached, and both runs are complete
    cases h
    refine Iff.trans ?_ (exists_stepTo_iff fun n => stepTo_of_end hend).symm
    exact exists_congr fun n => by rw [runTo_of_complete rfl]
  | case3 fuel s b hend hpass =>
    -- the first stage stops here
    cases h
    simp only [runTo_of_begun hp hc]
  | case4 fuel s b hend hpass _ hstep ih =>
    have hphase := phase_advance_of_ok hstep
    refine (ih (hcov.continues (s.continues_advance b)) (hphase.trans_ne (by decide))
      (hphase.trans_ne (by decide)) h).trans ?_
    exact (exists_stepTo_iff fun n => stepTo_of_ok hend (mt hcov.wouldPass hpass) hstep).symm
  | case5 fuel s b hend hpass _ e hf =>
    rw [← Option.some.inj h] at hok
    cases hf.symm.trans hok

/-- Steps that fail, fail on the way to a later time as well. -/
theorem stepTo_fault_of_stage (hcov : s.Covers u t) (h : stepTo t fuel s b = some r)
    (hfault : r.fault ≠ none) : stepTo u fuel s b = some r := by
  fun_induction stepTo t fuel s b with
  | case1 => cases h
  | case2 | case3 =>
    cases h
    exact absurd rfl hfault
  | case4 fuel s b hend hpass _ hstep ih =>
    rw [stepTo_of_ok hend (mt hcov.wouldPass hpass) hstep]
    exact ih (hcov.continues (s.continues_advance b)) h
  | case5 fuel s b hend hpass _ e hf =>
    exact (stepTo_of_fault hend (mt hcov.wouldPass hpass) hf).trans h

/-- Where steps to a time end, those to an earlier time do. -/
theorem exists_stepTo_of_covers (hcov : s.Covers u t) (h : stepTo u fuel s b = some r') :
    ∃ r, stepTo t fuel s b = some r := by
  fun_induction stepTo t fuel s b with
  | case1 => cases h
  | case2 | case3 | case5 => exact ⟨_, rfl⟩
  | case4 fuel s b hend hpass _ hstep ih =>
    rw [stepTo_of_ok hend (mt hcov.wouldPass hpass) hstep] at h
    exact ih (hcov.continues (s.continues_advance b)) h

/-- **A run goes on from where a shorter one stopped.** -/
theorem runTo_of_stage (hcov : s.Covers u t) (h : s.runTo fuel t b = some r)
    (hok : r.fault = none) :
    (∃ n, r.sim.runTo n u r.board = some r') ↔ ∃ n, s.runTo n u b = some r' := by
  rcases runTo_cases h with ⟨hc, rfl⟩ | ⟨_, hf, rfl⟩ | ⟨hp, hstart, hr⟩ | ⟨hp, hc, hr⟩
  · exact Iff.rfl
  · exact absurd hok hf
  · have hphase := phase_start_of_ok hstart
    simp only [runTo_of_start hp hstart]
    exact stepTo_of_stage (hcov.continues (s.continues_start b)) (hphase.trans_ne (by decide))
      (hphase.trans_ne (by decide)) hr hok
  · simp only [runTo_of_begun hp hc]
    exact stepTo_of_stage hcov hp hc hr hok

theorem runTo_fault_of_stage (hcov : s.Covers u t) (h : s.runTo fuel t b = some r)
    (hfault : r.fault ≠ none) : s.runTo fuel u b = some r := by
  rcases runTo_cases h with ⟨_, rfl⟩ | ⟨hp, hf, rfl⟩ | ⟨hp, hstart, hr⟩ | ⟨hp, hc, hr⟩
  · exact absurd rfl hfault
  · exact runTo_of_start_fault hp hf
  · rw [runTo_of_start hp hstart]
    exact stepTo_fault_of_stage (hcov.continues (s.continues_start b)) hr hfault
  · rw [runTo_of_begun hp hc]
    exact stepTo_fault_of_stage hcov hr hfault

theorem exists_runTo_of_covers (hcov : s.Covers u t) (h : s.runTo fuel u b = some r') :
    ∃ r, s.runTo fuel t b = some r := by
  rcases runTo_cases h with ⟨hc, _⟩ | ⟨hp, hf, _⟩ | ⟨hp, hstart, hr⟩ | ⟨hp, hc, hr⟩
  · exact ⟨_, runTo_of_complete hc⟩
  · exact ⟨_, runTo_of_start_fault hp hf⟩
  · rw [runTo_of_start hp hstart]
    exact exists_stepTo_of_covers (hcov.continues (s.continues_start b)) hr
  · rw [runTo_of_begun hp hc]
    exact exists_stepTo_of_covers hcov hr

/-! ## A run in any number of stages -/

/-- What stays an answer when more steps are allowed is the only one. -/
theorem exists_eq_some_iff {β : Type} {f : Nat → Option β} {x y : β}
    (hmono : ∀ {n n' : Nat} {z : β}, f n = some z → n ≤ n' → f n' = some z) (h : f fuel = some x) :
    (∃ n, f n = some y) ↔ x = y := by
  constructor
  · rintro ⟨n, hn⟩
    have hx := hmono h (Nat.le_max_left fuel n)
    have hy := hmono hn (Nat.le_max_right fuel n)
    exact Option.some.inj (hx.symm.trans hy)
  · rintro rfl
    exact ⟨fuel, h⟩

/-- A run has one answer, whatever number of steps is allowed. -/
theorem exists_runTo_iff (h : s.runTo fuel t b = some r) :
    (∃ n, s.runTo n t b = some r') ↔ r = r' :=
  exists_eq_some_iff runTo_mono h

theorem exists_runThrough_iff {ts : List α} (h : runThrough fuel ts s b = some r) :
    (∃ n, runThrough n ts s b = some r') ↔ r = r' :=
  exists_eq_some_iff runThrough_mono h

theorem exists_runThrough_cons_of_fault {ts : List α} (h : s.runTo fuel t b = some r)
    (hfault : r.fault ≠ none) : (∃ n, runThrough n (t :: ts) s b = some r') ↔ r = r' := by
  have hcons : runThrough fuel (t :: ts) s b = some r := by
    rw [runThrough, h]
    cases he : r.fault with
    | none => exact absurd he hfault
    | some e => simp only [he]
  exact exists_runThrough_iff hcons

theorem exists_runThrough_cons {ts : List α} (h : s.runTo fuel t b = some r)
    (hok : r.fault = none) :
    (∃ n, runThrough n (t :: ts) s b = some r') ↔
      ∃ n, runThrough n ts r.sim r.board = some r' := by
  constructor
  · rintro ⟨n, hn⟩
    have hmore := runThrough_mono hn (Nat.le_max_right fuel n)
    rw [runThrough, runTo_mono h (Nat.le_max_left fuel n)] at hmore
    simp only [hok] at hmore
    exact ⟨_, hmore⟩
  · rintro ⟨n, hn⟩
    refine ⟨max fuel n, ?_⟩
    rw [runThrough, runTo_mono h (Nat.le_max_left fuel n)]
    simp only [hok]
    exact runThrough_mono hn (Nat.le_max_right fuel n)

theorem exists_runTo_of_runThrough_cons {ts : List α}
    (h : runThrough fuel (t :: ts) s b = some r') : ∃ r, s.runTo fuel t b = some r := by
  rw [runThrough] at h
  cases hr : s.runTo fuel t b with
  | none => simp only [hr, reduceCtorEq] at h
  | some r => exact ⟨r, rfl⟩

/-- **Runs in stages lead where one run to the last of the times leads,** in whatever order the
times come. The one ends exactly if the other does. -/
theorem runThrough_iff_runTo {ts : List α} (hu : u ∈ ts) (hcov : ∀ t ∈ ts, s.Covers u t) :
    (∃ n, runThrough n ts s b = some r) ↔ ∃ n, s.runTo n u b = some r := by
  induction ts generalizing s b with
  | nil => cases hu
  | cons t ts ih =>
    obtain ⟨hfirst, hrest⟩ := List.forall_mem_cons.mp hcov
    by_cases hends : ∃ fuel r₁, s.runTo fuel t b = some r₁
    · obtain ⟨fuel, r₁, hr₁⟩ := hends
      by_cases hok : r₁.fault = none
      · -- the other stages and the rest of the one run start from where the first stage stopped
        have hcont := continues_runTo hr₁
        rw [exists_runThrough_cons hr₁ hok, ← runTo_of_stage hfirst hr₁ hok]
        rcases List.mem_cons.mp hu with rfl | hlater
        · have hrest₁ := atRest_runTo hr₁ hok
          rw [exists_runTo_iff (hrest₁.runTo 0), exists_runThrough_iff
            (runThrough_covered hrest₁ fun t ht => (hrest t ht).continues hcont)]
        · exact ih hlater fun t ht => (hrest t ht).continues hcont
      · rw [exists_runThrough_cons_of_fault hr₁ hok,
          exists_runTo_iff (runTo_fault_of_stage hfirst hr₁ hok)]
    · refine iff_of_false ?_ ?_
      · rintro ⟨n, hn⟩
        exact hends ⟨n, exists_runTo_of_runThrough_cons hn⟩
      · rintro ⟨n, hn⟩
        exact hends ⟨n, exists_runTo_of_covers hfirst hn⟩

end StockFlow.Sim
