import Mathlib.Data.Rat.Floor
import Mathlib.Tactic.FieldSimp
import Mathlib.Tactic.Linarith
import StockFlow.Proofs.Engine.Stages

/-!
# Runs in exact time

The times of a run are added up in doubles, and the ends of runs are moved by half a step so that
rounding does not cost a step. Where times are added, halved and compared exactly, a run makes as
many steps as lead nearest to its target.

* `ExactTimes` — times are rational numbers and computed exactly
* `Timespec.nearest` — the step whose time is nearest to a time
* `Sim.After` — a simulation after a number of steps
* `Sim.Fresh.exists_runTo` — a run stops at the step nearest to its target, or to the end
-/

namespace StockFlow

/-- Times are added, halved and compared exactly. -/
structure ExactTimes [Scalar ℚ] : Prop where
  add : ∀ x y : ℚ, Scalar.add x y = x + y
  half : ∀ x : ℚ, Scalar.half x = x / 2
  less : ∀ x y : ℚ, Scalar.less x y = decide (x < y)

/-! ## The nearest step -/

namespace Timespec

variable {spec : Timespec ℚ} {t u : ℚ}

/-- The step whose time is nearest to a time, the later one of two. -/
def nearest (spec : Timespec ℚ) (t : ℚ) : ℤ := ⌊(t - spec.start) / spec.dt + 1 / 2⌋

/-- **The step after `k` leads past a time by more than half a step** exactly if the nearest step is
not after `k`. -/
theorem nearest_le_iff (hdt : 0 < spec.dt) (k : ℕ) : spec.nearest t ≤ k ↔
    t + spec.dt / 2 < spec.start + k * spec.dt + spec.dt := by
  have hscale : (t - spec.start) / spec.dt + 1 / 2 = (t + spec.dt / 2 - spec.start) / spec.dt := by
    field_simp
    ring
  have hcast : (((k : ℤ) + 1 : ℤ) : ℚ) = k + 1 := by push_cast; rfl
  rw [nearest, ← Int.lt_add_one_iff, Int.floor_lt, hscale, hcast, div_lt_iff₀ hdt]
  constructor <;> intro h <;> linarith

theorem nearest_mono (hdt : 0 < spec.dt) (h : t ≤ u) : spec.nearest t ≤ spec.nearest u := by
  refine Int.floor_le_floor ?_
  gcongr

theorem nearest_min (hdt : 0 < spec.dt) (t u : ℚ) :
    spec.nearest (min t u) = min (spec.nearest t) (spec.nearest u) := by
  rcases le_total t u with h | h
  · rw [min_eq_left h, min_eq_left (nearest_mono hdt h)]
  · rw [min_eq_right h, min_eq_right (nearest_mono hdt h)]

theorem nearest_nonneg (hdt : 0 < spec.dt) (h : spec.start ≤ t) : 0 ≤ spec.nearest t := by
  refine Int.floor_nonneg.mpr ?_
  have hquot : 0 ≤ (t - spec.start) / spec.dt := div_nonneg (sub_nonneg.mpr h) hdt.le
  linarith

/-- **No other step is nearer.** -/
theorem nearest_le_abs (spec : Timespec ℚ) (hdt : 0 < spec.dt) (t : ℚ) (k : ℤ) :
    |spec.start + spec.nearest t * spec.dt - t| ≤ |spec.start + k * spec.dt - t| := by
  obtain ⟨q, hq⟩ : ∃ q, q = (t - spec.start) / spec.dt := ⟨_, rfl⟩
  have ht : t = spec.start + q * spec.dt := by
    rw [hq]
    field_simp
    ring
  have hdiff (n : ℚ) : |spec.start + n * spec.dt - t| = |n - q| * spec.dt := by
    rw [ht, show spec.start + n * spec.dt - (spec.start + q * spec.dt) = (n - q) * spec.dt by ring,
      abs_mul, abs_of_pos hdt]
  have hround : spec.nearest t = round q := by rw [nearest, round_eq, hq]
  rw [hdiff, hdiff, hround, abs_sub_comm, abs_sub_comm _ q]
  exact mul_le_mul_of_nonneg_right (round_le q k) hdt.le

end Timespec

/-! ## Clocks -/

namespace Sim

section Clock

variable {α : Type} [Scalar α] {s : Sim α} {b : Board α}

/-- A start leaves the clock alone. -/
theorem time_start (hi : timeName ∉ ruleNames s.model.equations.initials)
    (hf : timeName ∉ ruleNames s.model.equations.flows) (hok : (s.start b).fault = none) :
    (s.start b).sim.values[timeName]? = s.values[timeName]? ∧ (s.start b).sim.step = s.step := by
  unfold start at hok ⊢
  have hboth := Reached.ok_of_andThen hok
  have hinitials := Reached.ok_of_andThen hboth
  rw [Reached.andThen_of_ok hboth, Reached.andThen_of_ok hinitials]
  obtain ⟨u, hu, hothers⟩ := s.apply_sim b s.model.equations.initials
  obtain ⟨v, hv, hothers'⟩ := (s.withValues u).apply_sim
    (s.apply b s.model.equations.initials).board s.model.equations.flows
  rw [hu, withValues_model, hv]
  exact ⟨(hothers' _ hf).trans (hothers _ hi), rfl⟩

/-- A step moves the clock on by one step. -/
theorem time_advance (hf : timeName ∉ ruleNames s.model.equations.flows)
    (hok : (s.advance b).fault = none) :
    (s.advance b).sim.values[timeName]? = some s.nextTime ∧
      (s.advance b).sim.step = s.step + 1 := by
  cases he : s.evalAll b ∅ s.model.equations.stocks with | mk res b₁ =>
  cases res with
  | error e =>
    rw [advance_of_error he] at hok
    cases hok
  | ok w =>
    rw [advance_of_ok he] at hok ⊢
    rw [Reached.andThen_of_ok (Reached.ok_of_andThen hok)]
    obtain ⟨v, hv, hothers⟩ := (s.moved w).apply_sim b₁ s.model.equations.flows
    rw [hv]
    refine ⟨?_, saveIfDue_step _⟩
    show ((s.moved w).withValues v).saveIfDue.values[timeName]? = _
    rw [saveIfDue_values, withValues_values, hothers _ hf, getElem?_moved, if_pos rfl]

end Clock

/-! ## Steps in exact time -/

section Steps

variable [Scalar ℚ] {s t : Sim ℚ} {b : Board ℚ} {r : Reached ℚ} {u : ℚ} {k n : ℕ}

/-- A simulation `k` steps after it started as `s`. -/
structure After (s : Sim ℚ) (k : ℕ) (t : Sim ℚ) : Prop where
  continues : s.Continues t
  step : t.step = k
  time : t.values[timeName]? = some (s.spec.start + k * s.spec.dt)
  phase : t.phase = if k = 0 then .initialized else .stepping

namespace After

theorem start (hf : s.Fresh) (hi : timeName ∉ ruleNames s.model.equations.initials)
    (hn : timeName ∉ ruleNames s.model.equations.flows) (hok : (s.start b).fault = none) :
    s.After 0 (s.start b).sim := by
  obtain ⟨htime, hstep⟩ := time_start hi hn hok
  refine ⟨s.continues_start b, hstep.trans hf.step, ?_, phase_start_of_ok hok⟩
  rw [htime, hf.time, Nat.cast_zero, zero_mul, add_zero]

omit [Scalar ℚ] in
theorem time_eq (h : s.After k t) : t.time = s.spec.start + k * s.spec.dt := by
  rw [Sim.time, Std.TreeMap.getD_eq_getD_getElem?, h.time, Option.getD_some]

theorem nextTime (h : s.After k t) (hexact : ExactTimes) :
    t.nextTime = s.spec.start + k * s.spec.dt + s.spec.dt := by
  rw [Sim.nextTime, h.time_eq, hexact.add, h.continues.spec]

theorem advance (h : s.After k t) (hexact : ExactTimes)
    (hn : timeName ∉ ruleNames s.model.equations.flows) (hok : (t.advance b).fault = none) :
    s.After (k + 1) (t.advance b).sim := by
  obtain ⟨htime, hstep⟩ := time_advance (by rwa [h.continues.model]) hok
  refine ⟨h.continues.trans (t.continues_advance b), by rw [hstep, h.step], ?_, ?_⟩
  · rw [htime, h.nextTime hexact]
    push_cast
    ring_nf
  · rw [phase_advance_of_ok hok, if_neg (Nat.succ_ne_zero k)]

/-- **No more steps are made** once the nearest step is reached. -/
theorem wouldPass_iff (h : s.After k t) (hexact : ExactTimes) (hdt : 0 < s.spec.dt) (x : ℚ) :
    t.wouldPass x = true ↔ s.spec.nearest x ≤ k := by
  rw [Timespec.nearest_le_iff hdt, wouldPass, hexact.less, decide_eq_true_iff, nudged, hexact.add,
    hexact.half, h.nextTime hexact, h.continues.spec]

theorem ends_iff (h : s.After k t) (hexact : ExactTimes) (hdt : 0 < s.spec.dt) :
    t.wouldPass t.spec.stop = true ↔ s.spec.nearest s.spec.stop ≤ k := by
  rw [h.continues.spec]
  exact h.wouldPass_iff hexact hdt s.spec.stop

end After

/-- Where a run in exact time stops: after `n` steps, at the end if that is the nearest step to
it. -/
structure StopsAfter (s : Sim ℚ) (n : ℕ) (r : Reached ℚ) : Prop where
  fault : r.fault = none
  step : r.sim.step = n
  time : r.sim.time = s.spec.start + n * s.spec.dt
  phase : r.sim.phase =
    if s.spec.nearest s.spec.stop = n then .complete
    else if n = 0 then .initialized
    else .stepping

omit [Scalar ℚ] in
theorem After.stopsAfter (h : s.After n t) {phase : Phase}
    (hphase : phase = if s.spec.nearest s.spec.stop = n then .complete
      else if n = 0 then .initialized else .stepping) :
    s.StopsAfter n ⟨{ t with phase }, b, none⟩ where
  fault := rfl
  step := h.step
  time := h.time_eq
  phase := hphase

/-- **Steps are made until the nearest is reached,** if none of them fails. -/
theorem After.exists_stepTo (h : s.After k t) (hexact : ExactTimes) (hdt : 0 < s.spec.dt)
    (hf : timeName ∉ ruleNames s.model.equations.flows) (hk : k ≤ n)
    (hn : (n : ℤ) = max 0 (min (s.spec.nearest u) (s.spec.nearest s.spec.stop)))
    (hstop : 0 ≤ s.spec.nearest s.spec.stop)
    (hok : ∀ fuel r, stepTo u fuel t b = some r → r.fault = none) :
    ∃ r, stepTo u (n - k + 1) t b = some r ∧ s.StopsAfter n r := by
  -- by the number of steps that are left
  induction hm : n - k generalizing k t b with
  | zero =>
    obtain rfl : k = n := by omega
    have hend := h.ends_iff hexact hdt
    by_cases hlast : s.spec.nearest s.spec.stop = k
    · exact ⟨_, stepTo_of_end (hend.mpr hlast.le), h.stopsAfter (if_pos hlast).symm⟩
    · refine ⟨_, stepTo_of_pass (mt hend.mp (by omega))
        ((h.wouldPass_iff hexact hdt u).mpr (by omega)), h.stopsAfter ?_⟩
      rw [if_neg hlast, h.phase]
  | succ m ih =>
    have hend : ¬t.wouldPass t.spec.stop = true := mt (h.ends_iff hexact hdt).mp (by omega)
    have hpass : ¬t.wouldPass u = true := mt (h.wouldPass_iff hexact hdt u).mp (by omega)
    have hadvance : (t.advance b).fault = none := by
      cases hfault : (t.advance b).fault with
      | none => rfl
      | some e =>
        have hnone := hok 1 _ (stepTo_of_fault hend hpass hfault)
        rwa [hfault] at hnone
    obtain ⟨r, hr, hstops⟩ := ih (h.advance hexact hf hadvance) (by omega)
      (fun fuel r hr => hok (fuel + 1) r ((stepTo_of_ok hend hpass hadvance).trans hr)) (by omega)
    exact ⟨r, (stepTo_of_ok hend hpass hadvance).trans hr, hstops⟩

/-- **A run stops at the step nearest to its target,** or to the end if that comes before. -/
theorem Fresh.exists_runTo (h : s.Fresh) (hexact : ExactTimes) (hdt : 0 < s.spec.dt)
    (hspan : s.spec.start ≤ s.spec.stop)
    (hi : timeName ∉ ruleNames s.model.equations.initials)
    (hf : timeName ∉ ruleNames s.model.equations.flows)
    (hn : (n : ℤ) = max 0 (s.spec.nearest (min u s.spec.stop)))
    (hok : ∀ fuel r, s.runTo fuel u b = some r → r.fault = none) :
    ∃ r, s.runTo (n + 1) u b = some r ∧ s.StopsAfter n r := by
  have hstart : (s.start b).fault = none := by
    by_contra hfault
    exact hfault (hok 0 _ (runTo_of_start_fault h.phase hfault))
  rw [Timespec.nearest_min hdt] at hn
  obtain ⟨r, hr, hstops⟩ := (After.start h hi hf hstart).exists_stepTo hexact hdt hf
    (Nat.zero_le n) hn (Timespec.nearest_nonneg hdt hspan)
    (fun fuel r hr => hok fuel r ((runTo_of_start h.phase hstart).trans hr))
  exact ⟨r, (runTo_of_start h.phase hstart).trans hr, hstops⟩

/-- **In exact time a run makes as many steps as lead nearest to its target,** or to the end if that
comes before, and none if it lies before the start. A simulation that nothing was computed of yet is
run to a time, and none of its rules fails. No variable of it is called as the time is, which holds
of every model that was accepted. The run is complete exactly if it made the steps that lead nearest
to the end, also where the target lies before it. So a run to the end stops at the step whose time
is nearest to the end. -/
theorem steps_to_nearest (hexact : ExactTimes) (h : s.Fresh) (hspan : s.spec.start ≤ s.spec.stop)
    (hdt : 0 < s.spec.dt) (hi : timeName ∉ ruleNames s.model.equations.initials)
    (hf : timeName ∉ ruleNames s.model.equations.flows)
    (hok : ∀ fuel r, s.runTo fuel u b = some r → r.fault = none) :
    ∃ (n : ℕ) (r : Reached ℚ),
      (n : ℤ) = max 0 ⌊(min u s.spec.stop - s.spec.start) / s.spec.dt + 1 / 2⌋ ∧
      (∀ fuel, n < fuel → s.runTo fuel u b = some r) ∧ r.fault = none ∧ r.sim.step = n ∧
      r.sim.time = s.spec.start + n * s.spec.dt ∧
      (r.sim.phase = .complete ↔
        (n : ℤ) = ⌊(s.spec.stop - s.spec.start) / s.spec.dt + 1 / 2⌋) ∧
      (r.sim.phase ≠ .complete → r.sim.phase = if n = 0 then .initialized else .stepping) ∧
      (u = s.spec.stop → (∀ fuel, n < fuel → s.runToEnd fuel b = some r) ∧
        r.sim.phase = .complete ∧
        ∀ k : ℕ, |r.sim.time - s.spec.stop| ≤ |s.spec.start + k * s.spec.dt - s.spec.stop|) := by
  obtain ⟨n, hn⟩ : ∃ n : ℕ, (n : ℤ) = max 0 (s.spec.nearest (min u s.spec.stop)) :=
    ⟨_, Int.toNat_of_nonneg (le_max_left ..)⟩
  obtain ⟨r, hr, hstops⟩ := h.exists_runTo hexact hdt hspan hi hf hn hok
  have hruns : ∀ fuel, n < fuel → s.runTo fuel u b = some r := fun _ hfuel => runTo_mono hr hfuel
  have hphase := hstops.phase
  have hbegun : (if n = 0 then Phase.initialized else .stepping) ≠ .complete := by
    split <;> exact nofun
  refine ⟨n, r, hn, hruns, hstops.fault, hstops.step, hstops.time, ?_, ?_, ?_⟩
  · show _ ↔ (n : ℤ) = s.spec.nearest s.spec.stop
    rw [hphase]
    by_cases hlast : s.spec.nearest s.spec.stop = n
    · rw [if_pos hlast]
      exact iff_of_true rfl hlast.symm
    · rw [if_neg hlast]
      exact iff_of_false hbegun (Ne.symm hlast)
  · intro hne
    rw [hphase, if_neg]
    intro hlast
    rw [if_pos hlast] at hphase
    exact hne hphase
  · rintro rfl
    have hlast : s.spec.nearest s.spec.stop = n := by
      rw [hn, min_self, max_eq_right (Timespec.nearest_nonneg hdt hspan)]
    refine ⟨hruns, by rw [hphase, if_pos hlast], fun k => ?_⟩
    have hnearest := s.spec.nearest_le_abs hdt s.spec.stop k
    rw [hlast] at hnearest
    rw [hstops.time]
    exact_mod_cast hnearest

end Steps

/-! ## A level in exact numbers -/

/-- Rational numbers. A function that leads beyond them gives zero. -/
instance exactScalar : Scalar ℚ where
  add := (· + ·)
  sub := (· - ·)
  mul := (· * ·)
  div := (· / ·)
  pow x y := x ^ ⌊y⌋
  neg := (- ·)
  half x := x / 2
  less x y := decide (x < y)
  near x y := decide (x = y)
  undefined := 0
  isUndefined _ := false
  pi := 0
  unary
    | .abs, x => |x|
    | _, _ => 0
  binary
    | .max => max
    | .min => min

theorem exactTimes_exactScalar : ExactTimes := ⟨fun _ _ => rfl, fun _ => rfl, fun _ _ => rfl⟩

/-- A level that grows at a rate, and its rate, over a span that ends half a step after a step. -/
def growing : Sim ℚ :=
  .create 0 "main"
    { name := "main"
      isInterface := false
      isAbstract := false
      vars := [⟨"level", .stock, none, none⟩, ⟨"rate", .aux, some 2, none⟩]
      defaults := (∅ : Values ℚ).insert "rate" 2
      timespec := none
      equations :=
        { initials := [⟨"level", .const 1⟩, ⟨"rate", .const 2⟩]
          flows := [⟨"rate", .default "rate"⟩]
          stocks := [⟨"level", .binary .add (.var "level") (.binary .mul .dt (.var "rate"))⟩]
          tables := ∅ } }
    ⟨0, 5 / 4, 1 / 2, 1 / 2⟩ 1

theorem steps_to_nearest_growing : ∃ r : Reached ℚ,
    (∀ fuel, 3 < fuel → growing.runToEnd fuel .empty = some r) ∧ r.sim.step = 3 ∧
      r.sim.time = 3 / 2 ∧ r.sim.phase = .complete := by
  have hfour : ((growing.runTo 4 (5 / 4) .empty).map Reached.fault) = some none := by
    decide +kernel
  obtain ⟨r₀, hr₀, hnone⟩ := Option.map_eq_some_iff.mp hfour
  have hok : ∀ fuel r, growing.runTo fuel (5 / 4) .empty = some r → r.fault = none := by
    intro fuel r hr
    have hsame := (runTo_mono hr (le_max_left fuel 4)).symm.trans
      (runTo_mono hr₀ (le_max_right fuel 4))
    rwa [Option.some.inj hsame]
  obtain ⟨n, r, hn, _, _, hstep, htime, _, _, hend⟩ :=
    steps_to_nearest exactTimes_exactScalar (s := growing) (fresh_create ..) (by decide +kernel)
      (by decide +kernel) (by decide) (by decide) hok
  obtain ⟨hruns, hphase, _⟩ := hend rfl
  have hthree : n = 3 := by
    have hfloor : ⌊(min (5 / 4) growing.spec.stop - growing.spec.start) / growing.spec.dt + 1 / 2⌋ =
        3 := by decide +kernel
    rw [hfloor] at hn
    omega
  subst hthree
  refine ⟨r, hruns, hstep, htime.trans ?_, hphase⟩
  decide +kernel

end Sim

end StockFlow
