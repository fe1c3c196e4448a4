import StockFlow.Proofs.Engine.Clock
import StockFlow.Proofs.Engine.Closing

/-!
# Save points

While a simulation is run and its variables are set, it goes through one state for each step. Those
whose step is a multiple of the distance between records are its save points.

* `Sim.Traced` — what happened to a simulation, with the states that its runs went through
* `Sim.Traced.tracks` — there is one for each step, and those that were due make up the rows
* `Sim.Saved` — a report of just the save points
* `Sim.Tracks.saved` — it is what is recorded
* `Sim.History.rows_prefix` — a row that has been recorded stays
-/

namespace StockFlow

variable {α : Type}

/-- The multiples of a number among the first numbers. -/
theorem filter_mod_range {e : Nat} (n : Nat) : (List.range (n + 1)).filter (fun k => k % e = 0) =
    (List.range (n / e + 1)).map (· * e) := by
  induction n with
  | zero => simp
  | succ n ih =>
    rw [List.range_succ, List.filter_append, ih, Nat.succ_div]
    by_cases hdvd : e ∣ n + 1
    · have hmod : (n + 1) % e = 0 := Nat.mod_eq_zero_of_dvd hdvd
      have hlast : (n / e + 1) * e = n + 1 := by
        rw [← Nat.div_mul_cancel hdvd, Nat.succ_div, if_pos hdvd]
      rw [if_pos hdvd, List.range_succ (n := n / e + 1), List.map_append, List.map_singleton, hlast]
      simp [hmod]
    · have hmod : (n + 1) % e ≠ 0 := mt Nat.dvd_of_mod_eq_zero hdvd
      rw [if_neg hdvd]
      simp [hmod]

theorem range_append_range' (m n : Nat) :
    List.range m ++ List.range' m n = List.range (m + n) := by
  have happend : List.range' 0 m ++ List.range' (0 + 1 * m) n = List.range' 0 (m + n) :=
    List.range'_append
  rwa [Nat.zero_add, Nat.one_mul, ← List.range_eq_range', ← List.range_eq_range'] at happend

namespace Sim

variable {s s' s₀ : Sim α} {b b' b₀ : Board α} {c : Call α} {r : Reached α} {log log' : Log α}
  {states : List (Sim α)} {target : α} {fuel : Nat}

section Rows

variable [Scalar α]

/-! ## The steps of a run -/

theorem step_start (hs : s.Sound) (hok : (s.start b).fault = none) :
    (s.start b).sim.step = s.step := by
  obtain ⟨u, v, _, _, hsim, _⟩ := start_ok hs.model hok
  rw [hsim]
  rfl

/-- The states that steps lead to are numbered on. -/
theorem map_step_trailTo (hs : s.Sound) (h : stepTo target fuel s b = some r)
    (hok : r.fault = none) : ∃ n, r.sim.step = s.step + n ∧
      (trailTo target fuel s b).map step = List.range' (s.step + 1) n := by
  refine trailTo_induction (R := fun s _ states r => s.Sound →
    ∃ n, r.sim.step = s.step + n ∧ states.map step = List.range' (s.step + 1) n)
    ?rest ?finish ?step h hok hs
  case rest | finish => exact fun _ _ _ => ⟨0, rfl, rfl⟩
  case step =>
    intro s b states r hf ih hs
    obtain ⟨n, hstep, hstates⟩ := ih (hs.continues (s.continues_advance b))
    rw [step_advance hs hf] at hstep hstates
    refine ⟨n + 1, by omega, ?_⟩
    rw [List.map_cons, hstates, step_advance hs hf, List.range'_succ]

/-! ## What is recorded of the states -/

/-- The states that a simulation went through since it was `s₀`: one for each step, once there is
one, and those that were due make up the rows. -/
structure Tracks (s₀ s : Sim α) (states : List (Sim α)) : Prop where
  fresh : s.phase = .fresh → states = []
  steps : s.phase ≠ .fresh → states.map step = List.range (s.step + 1)
  rows : s.report.rows.toList = (states.filter isDue).map row
  settled : ∀ t ∈ states, t.Settled ∧ s₀.Continues t

theorem Fresh.tracks (h : s.Fresh) : s.Tracks s [] where
  fresh _ := rfl
  steps hp := absurd h.phase hp
  rows := by rw [h.rows]; rfl
  settled := nofun

/-- **A run that gets through goes on with the states,** one for each step that it makes. -/
theorem Tracks.runTo (h : s₀.Tracks s states) (halive : s.Alive) (hs : s.Sound)
    (hcont : s₀.Continues s) (hr : s.runTo fuel target b = some r) (hok : r.fault = none) :
    s₀.Tracks r.sim (states ++ s.trail fuel target b) := by
  have hrun : r.sim.Running := by
    rcases halive.runTo hs hr with ⟨_, hrun⟩ | ⟨hfault, _⟩
    · exact hrun
    · exact absurd hok hfault
  refine ⟨fun hp => absurd hp hrun.begun, fun _ => ?_, ?_, ?_⟩
  · rw [List.map_append]
    rcases runTo_cases hr with ⟨hc, rfl⟩ | ⟨_, hfault, rfl⟩ | ⟨hp, hstart, hr⟩ | ⟨hp, hc, hr⟩
    · rw [trail_of_complete hc, List.map_nil, List.append_nil]
      exact h.steps hrun.begun
    · exact absurd hok hfault
    · have hs' := hs.continues (s.continues_start b)
      obtain ⟨n, hstep, htrail⟩ := map_step_trailTo hs' hr hok
      rw [step_start hs hstart, (halive.fresh hp).step] at hstep htrail
      rw [h.fresh hp, trail_of_fresh hp hstart, List.map_nil, List.nil_append, List.map_cons,
        htrail, hstep, step_start hs hstart, (halive.fresh hp).step, Nat.add_right_comm,
        ← range_append_range']
      rfl
    · obtain ⟨n, hstep, htrail⟩ := map_step_trailTo hs hr hok
      rw [h.steps hp, trail_of_begun hp hc, htrail, hstep, range_append_range',
        Nat.add_right_comm]
  · rw [halive.rows_runTo hs hr hok, h.rows, List.filter_append, List.map_append]
  · intro t ht
    rcases List.mem_append.mp ht with hbefore | hnow
    · exact h.settled t hbefore
    · obtain ⟨hsettled, hcont'⟩ := halive.forall_trail hs t hnow
      exact ⟨hsettled, hcont.trans hcont'⟩

/-- Setting a value and turning to the board add no state and no row. -/
theorem Tracks.performs (h : s₀.Tracks s states) (hc : Performs s b c r) (hrun : ¬c.IsRun) :
    s₀.Tracks r.sim states := by
  cases hc with
  | run => exact absurd trivial hrun
  | request q => exact h
  | set name x =>
    rcases s.setValue_cases name x b with ⟨e, he⟩ | ⟨_, _, he⟩
    · rwa [he]
    · rw [he]
      by_cases hp : s.phase = .fresh
      · rwa [if_pos hp]
      · rw [if_neg hp]
        exact ⟨h.fresh, h.steps, h.rows, h.settled⟩

/-! ## Histories -/

/-- **What happened to a simulation** since it was `s₀` and the board `b₀`, with the states that its
runs went through. -/
inductive Traced (s₀ : Sim α) (b₀ : Board α) : Log α → List (Sim α) → Sim α → Board α → Prop
  | nil : Traced s₀ b₀ [] [] s₀ b₀
  | run {log : Log α} {states : List (Sim α)} {s : Sim α} {b : Board α} {fuel : Nat} {target : α}
      {r : Reached α} (before : Traced s₀ b₀ log states s b)
      (h : s.runTo fuel target b = some r) :
      Traced s₀ b₀ (log ++ [(.run target, r.fault)]) (states ++ s.trail fuel target b) r.sim r.board
  | other {log : Log α} {states : List (Sim α)} {s : Sim α} {b : Board α} {c : Call α}
      {r : Reached α} (before : Traced s₀ b₀ log states s b) (h : Performs s b c r)
      (hc : ¬c.IsRun) : Traced s₀ b₀ (log ++ [(c, r.fault)]) states r.sim r.board

theorem Traced.history (h : Traced s₀ b₀ log states s b) : History s₀ b₀ log s b := by
  induction h with
  | nil => exact .nil
  | run _ hr ih => exact ih.snoc (.run hr)
  | other _ hc _ ih => exact ih.snoc hc

/-- **On a board that nobody closes there is one state for each step,** and those that were due make
up the rows. -/
theorem Traced.tracks (h : Traced s₀ b₀ log states s b) (hf : s₀.Fresh) (hs : s₀.Sound)
    (hlog : log.KeptOpen) (hb : b₀.remaining = none) : s₀.Tracks s states := by
  induction h with
  | nil => exact hf.tracks
  | run hbefore hr ih =>
    obtain ⟨hopen, _⟩ := Log.keptOpen_snoc.mp hlog
    have hcont := hbefore.history.continues
    have halive := hbefore.history.alive_of_running (Or.inl hf) hs hopen hb
    have hok := halive.fault_of_running (hs.continues hcont)
      (hbefore.history.remaining hopen hb) hr
    exact (ih hopen).runTo halive (hs.continues hcont) hcont hr hok
  | other _ hc hrun ih => exact (ih (Log.keptOpen_snoc.mp hlog).1).performs hc hrun

/-! ## Rows that stay -/

theorem rows_prefix_make (hs : s.Sound) (b : Board α) (m : Move α) :
    s.report.rows.toList <+: (s.make b m).sim.report.rows.toList := by
  rcases rows_make hs b m with h | ⟨_, _, h⟩
  · exact h ▸ List.prefix_rfl
  · rw [h, Array.toList_push]
    exact List.prefix_append ..

theorem rows_prefix_runTo (hs : s.Sound) (h : s.runTo fuel target b = some r) :
    s.report.rows.toList <+: r.sim.report.rows.toList := by
  refine runTo_induction
    (P := fun t _ => t.Sound ∧ s.report.rows.toList <+: t.report.rows.toList)
    (Q := fun r => s.report.rows.toList <+: r.sim.report.rows.toList)
    ?still ?stuck ?start ?begun ?rest ?finish ?step ?halt h
  case still => exact fun _ => List.prefix_rfl
  case stuck => exact fun _ _ => rows_prefix_make hs b .start
  case start => exact fun _ _ => ⟨hs.continues (s.continues_start b), rows_prefix_make hs b .start⟩
  case begun => exact fun _ => ⟨hs, List.prefix_rfl⟩
  case rest | finish => exact fun _ _ ht _ => ht.2
  case step =>
    intro t b ht _
    exact ⟨ht.1.continues (t.continues_advance b), ht.2.trans (rows_prefix_make ht.1 b .advance)⟩
  case halt => exact fun t b ht _ => ht.2.trans (rows_prefix_make ht.1 b .advance)

/-- **A row that has been recorded stays,** whatever happens then. -/
theorem History.rows_prefix (h : History s₀ b₀ log s b) (hs : s₀.Sound) :
    s₀.report.rows.toList <+: s.report.rows.toList := by
  induction h with
  | nil => exact List.prefix_rfl
  | snoc hbefore hc ih =>
    refine ih.trans ?_
    cases hc with
    | run hr => exact rows_prefix_runTo (hs.continues hbefore.continues) hr
    | set name x => rw [report_setValue]
    | request q => exact List.prefix_rfl

end Rows

/-! ## Reports of save points -/

section Saved

variable {s s₀ t : Sim Float} {b b₀ : Board Float} {log : Log Float} {states : List (Sim Float)}

/-- **The states of runs are on time.** -/
theorem Traced.onTime (h : Traced s₀ b₀ log states s b) (hs : s₀.Sound) (ht : s₀.OnTime) :
    ∀ t ∈ states, t.OnTime := by
  induction h with
  | nil => exact nofun
  | @run _ _ s b _ _ _ hbefore hr ih =>
    have hs' := hs.continues hbefore.history.continues
    have hnow := hbefore.history.onTime ht hs
    intro t hmem
    rcases List.mem_append.mp hmem with hearlier | hlater
    · exact ih t hearlier
    · obtain ⟨_, hontime, _⟩ := forall_trail (P := fun t _ => t.OnTime ∧ t.Sound)
        (fun _ _ => ⟨hnow.start hs'.model, hs'.continues (s.continues_start b)⟩)
        (fun _ => ⟨hnow, hs'⟩)
        (fun u b hu _ => ⟨hu.1.advance hu.2.model, hu.2.continues (u.continues_advance b)⟩)
        t hlater
      exact hontime
  | other _ _ _ ih => exact ih

/-- The times of the save points that are behind a simulation. -/
def savedTimes (s : Sim Float) : List Float :=
  (List.range (s.step / s.saveEvery + 1)).map fun j => s.spec.time (j * s.saveEvery)

/-- **A report of just the save points,** where a simulation went through some states. -/
structure Saved (s : Sim Float) (states : List (Sim Float)) : Prop where
  /-- There is one state for each step up to now. -/
  steps : states.map step = List.range (s.step + 1)
  /-- There is one row for each save point up to now. -/
  size : s.report.rows.size = s.step / s.saveEvery + 1
  /-- It holds the time of the save point and what the recorded variables were in its state. -/
  row : ∀ j row, s.report.rows[j]? = some row → ∃ t, states[j * s.saveEvery]? = some t ∧
    row.1 = s.spec.time (j * s.saveEvery) ∧ t.value timeName = .ok row.1 ∧
    List.Forall₂ (fun name x => t.value name = .ok x) s.model.recorded row.2
  times : s.series timeName = .ok (s.savedTimes, s.savedTimes)
  /-- The series of a variable is its column. -/
  column : ∀ name ∈ s.model.recorded, ∃ column, s.series name = .ok (s.savedTimes, column) ∧
    column.length = s.step / s.saveEvery + 1 ∧ ∀ j x, column[j]? = some x →
      ∃ t, states[j * s.saveEvery]? = some t ∧ t.value name = .ok x

/-- A state stands at the place of its step. -/
theorem getElem?_of_map_step {n : Nat} (h : states.map step = List.range n) (ht : t ∈ states) :
    states[t.step]? = some t := by
  obtain ⟨i, hi⟩ := List.mem_iff_getElem?.mp ht
  have hstep : (List.range n)[i]? = some t.step := by
    rw [← h, List.getElem?_map, hi, Option.map_some]
  obtain ⟨_, hstep⟩ := List.getElem?_eq_some_iff.mp hstep
  rw [← hstep, List.getElem_range, hi]

namespace Tracks

/-- The states that were due are those whose step is a multiple of the distance between records. -/
theorem map_step_due (h : s₀.Tracks s states) (hcont : s₀.Continues s) (hp : s.phase ≠ .fresh) :
    (states.filter isDue).map step =
      (List.range (s.step / s.saveEvery + 1)).map (· * s.saveEvery) := by
  have hdue : states.filter isDue =
      states.filter ((fun k => decide (k % s.saveEvery = 0)) ∘ step) := by
    refine List.filter_congr fun t ht => ?_
    rw [isDue, (h.settled t ht).2.saveEvery, ← hcont.saveEvery]
    rfl
  rw [hdue, ← List.filter_map, h.steps hp, filter_mod_range]

theorem getElem?_due (h : s₀.Tracks s states) (hcont : s₀.Continues s) (hp : s.phase ≠ .fresh)
    {j : Nat} (hj : (states.filter isDue)[j]? = some t) :
    states[j * s.saveEvery]? = some t ∧ t.step = j * s.saveEvery := by
  have hstep : ((List.range (s.step / s.saveEvery + 1)).map (· * s.saveEvery))[j]? =
      some t.step := by
    rw [← h.map_step_due hcont hp, List.getElem?_map, hj, Option.map_some]
  rw [List.getElem?_map, Option.map_eq_some_iff] at hstep
  obtain ⟨i, hi, hstep⟩ := hstep
  obtain ⟨_, hi⟩ := List.getElem?_eq_some_iff.mp hi
  rw [List.getElem_range] at hi
  have ht : t ∈ states := (List.mem_filter.mp (List.mem_of_getElem? hj)).1
  rw [hi]
  exact ⟨hstep ▸ getElem?_of_map_step (h.steps hp) ht, hstep.symm⟩

/-- The times of the states that were due. -/
theorem map_time_due (h : s₀.Tracks s states) (hcont : s₀.Continues s) (hp : s.phase ≠ .fresh)
    (htime : ∀ t ∈ states, t.OnTime) :
    (states.filter isDue).map (fun t => t.row.1) = s.savedTimes := by
  have hrow : ∀ t ∈ states.filter isDue, t.row.1 = s.spec.time t.step := by
    intro t ht
    have hmem := (List.mem_filter.mp ht).1
    rw [row, Std.TreeMap.getD_eq_getD_getElem?, htime t hmem, Option.getD_some,
      (h.settled t hmem).2.spec, hcont.spec]
  have htimes := congrArg (List.map s.spec.time) (h.map_step_due hcont hp)
  rw [List.map_map, List.map_map] at htimes
  rw [List.map_congr_left hrow]
  exact htimes

/-- **What is recorded is a report of just the save points.** -/
theorem saved (h : s₀.Tracks s states) (hs : s₀.Sound) (hcont : s₀.Continues s)
    (hp : s.phase ≠ .fresh) (htime : ∀ t ∈ states, t.OnTime) (hnd : s.model.recorded.Nodup)
    (hreserved : timeName ∉ s.model.recorded) : s.Saved states := by
  have hnames : s.report.names = s.model.recorded := (hs.continues hcont).names
  have hmodel : ∀ t ∈ states, t.model = s.model := fun t ht =>
    (h.settled t ht).2.model.trans hcont.model.symm
  have hcount : (states.filter isDue).length = s.step / s.saveEvery + 1 := by
    have hlength := congrArg List.length (h.map_step_due hcont hp)
    simpa using hlength
  have hmem : ∀ t ∈ states.filter isDue, t ∈ states := fun t ht => (List.mem_filter.mp ht).1
  have hwhole : ∀ t ∈ states.filter isDue, t.IsRow t.row := fun t ht =>
    isRow_row (h.settled t (hmem t ht)).1 (hs.continues (h.settled t (hmem t ht)).2)
  have htimes : s.report.times = s.savedTimes := by
    rw [Report.times_eq_rows, h.rows, List.map_map]
    exact h.map_time_due hcont hp htime
  refine ⟨h.steps hp, ?_, ?_, ?_, ?_⟩
  · rw [← Array.length_toList, h.rows, List.length_map, hcount]
  · intro j x hx
    rw [← Array.getElem?_toList, h.rows, List.getElem?_map, Option.map_eq_some_iff] at hx
    obtain ⟨t, hj, rfl⟩ := hx
    obtain ⟨hplace, hstep⟩ := h.getElem?_due hcont hp hj
    have ht := List.mem_of_getElem? hj
    obtain ⟨hvalue, hvalues⟩ := hwhole t ht
    rw [hmodel t (hmem t ht)] at hvalues
    refine ⟨t, hplace, ?_, hvalue, hvalues⟩
    have hontime := htime t (hmem t ht)
    rw [value, hontime, Except.ok.injEq] at hvalue
    rw [← hvalue, hstep, (h.settled t (hmem t ht)).2.spec, hcont.spec]
  · rw [series, if_pos rfl, htimes]
  · intro name hname
    have hne : name ≠ timeName := fun he => hreserved (he ▸ hname)
    have hrows : s.report.rows.toList = (states.filter isDue).map fun t =>
        (t.row.1, s.report.names.map fun n => t.values.getD n Scalar.undefined) := by
      rw [h.rows]
      refine List.map_congr_left fun t ht => ?_
      rw [row, (h.settled t (hmem t ht)).2.names, hcont.names]
    refine ⟨(states.filter isDue).map fun t => t.values.getD name Scalar.undefined, ?_, ?_, ?_⟩
    · rw [series, if_neg hne, Report.series_of_rows (hnames ▸ hnd) (hnames ▸ hname) hrows, htimes]
    · rw [List.length_map, hcount]
    · intro j x hx
      rw [List.getElem?_map, Option.map_eq_some_iff] at hx
      obtain ⟨t, hj, rfl⟩ := hx
      have ht := hmem t (List.mem_of_getElem? hj)
      refine ⟨t, (h.getElem?_due hcont hp hj).1, value_of_isSome ((h.settled t ht).1 name ?_)⟩
      exact (hs.continues (h.settled t ht).2).model.recorded (hmodel t ht ▸ hname)

end Tracks

end Saved

end Sim

end StockFlow
