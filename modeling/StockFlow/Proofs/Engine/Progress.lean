import Mathlib.Logic.Function.Iterate
import StockFlow.Proofs.Engine.Lockstep
import StockFlow.Proofs.Engine.Stages

/-!
# Calls in the middle of being served

A run may have no end, and then it has no answer. What it does all the same can be watched move by
move: a simulation starts, makes a step, takes a setting, or a call is over and is answered.

* `Sim.nextMove`, `Sim.make` — the next move that a call asks for, and what making it gives
* `Progress.after` — calls in the middle of being served, some number of moves later
* `Progress.performAll_iff` — calls are served as `Sim.performAll` says, if that has an answer
* `Progress.rows_prefix_next` — a row that has been recorded stays
-/

namespace StockFlow

variable {α : Type}

/-! ## Moves -/

/-- What a simulation does next. -/
inductive Move (α : Type) where
  | set (name : String) (x : α)
  | start
  | advance
  /-- Nothing is left to do. The simulation may have reached its end. -/
  | rest (phase : Phase)

/-- Whether a call is over after its last move gave `r`. A start or a step that gets through is
followed by another. -/
def Move.isOver (r : Reached α) : Move α → Bool
  | set _ _ | rest _ => true
  | start | advance => r.fault.isSome

/-- Calls in the middle of being served. -/
structure Progress (α : Type) where
  sim : Sim α
  board : Board α
  /-- The calls that have no answer yet; the first is being served. -/
  pending : List (Sim.Command α)
  answers : List (Option RunFault)

/-- What the simulation has recorded so far. -/
def Progress.rows (p : Progress α) : List (α × List α) := p.sim.report.rows.toList

variable [Scalar α]

namespace Sim

/-- The next move that a call asks for. It does not depend on the board. -/
def nextMove (s : Sim α) : Command α → Move α
  | .set name x => .set name x
  | .run target =>
    if s.phase = .complete then .rest .complete
    else if s.phase = .fresh then .start
    else if s.wouldPass s.spec.stop then .rest .complete
    else if s.wouldPass target then .rest s.phase
    else .advance

/-- What a move gives. -/
def make (s : Sim α) (b : Board α) : Move α → Reached α
  | .set name x => s.setValue name x b
  | .start => s.start b
  | .advance => s.advance b
  | .rest phase => ⟨{ s with phase }, b, none⟩

end Sim

namespace Progress

/-- Calls that nothing was done for yet. -/
def begin (s : Sim α) (b : Board α) (commands : List (Sim.Command α)) : Progress α :=
  ⟨s, b, commands, []⟩

/-- One move later. -/
def next (p : Progress α) : Progress α :=
  match p.pending with
  | [] => p
  | c :: rest =>
    let move := p.sim.nextMove c
    let r := p.sim.make p.board move
    if move.isOver r then ⟨r.sim, r.board, rest, p.answers ++ [r.fault]⟩
    else ⟨r.sim, r.board, c :: rest, p.answers⟩

/-- **Calls in the middle of being served,** `n` moves later. -/
def after (p : Progress α) (n : Nat) : Progress α := next^[n] p

end Progress

/-! ## The moves of a run -/

variable {s s' : Sim α} {b b' : Board α} {r : Reached α} {target : α} {fuel n : Nat}

namespace Sim

section

variable (hp : s.phase ≠ .fresh) (hc : s.phase ≠ .complete)

theorem nextMove_of_complete (hc : s.phase = .complete) :
    s.nextMove (.run target) = .rest .complete := by
  rw [nextMove, if_pos hc]

theorem nextMove_of_fresh (hp : s.phase = .fresh) : s.nextMove (.run target) = .start := by
  rw [nextMove, if_neg (hp.trans_ne (by decide)), if_pos hp]

include hp hc

theorem nextMove_of_end (hend : s.wouldPass s.spec.stop = true) :
    s.nextMove (.run target) = .rest .complete := by
  rw [nextMove, if_neg hc, if_neg hp, if_pos hend]

variable (hend : ¬s.wouldPass s.spec.stop = true)
include hend

theorem nextMove_of_pass (hpass : s.wouldPass target = true) :
    s.nextMove (.run target) = .rest s.phase := by
  rw [nextMove, if_neg hc, if_neg hp, if_neg hend, if_pos hpass]

theorem nextMove_of_step (hpass : ¬s.wouldPass target = true) :
    s.nextMove (.run target) = .advance := by
  rw [nextMove, if_neg hc, if_neg hp, if_neg hend, if_neg hpass]

end

/-- When a run makes which move. -/
inductive RunMove (s : Sim α) (target : α) : Move α → Prop where
  | still (hc : s.phase = .complete) : RunMove s target (.rest .complete)
  | start (hp : s.phase = .fresh) : RunMove s target .start
  | finish (hp : s.phase ≠ .fresh) (hc : s.phase ≠ .complete)
    (hend : s.wouldPass s.spec.stop = true) : RunMove s target (.rest .complete)
  | rest (hp : s.phase ≠ .fresh) (hc : s.phase ≠ .complete)
    (hend : ¬s.wouldPass s.spec.stop = true) (hpass : s.wouldPass target = true) :
    RunMove s target (.rest s.phase)
  | advance (hp : s.phase ≠ .fresh) (hc : s.phase ≠ .complete)
    (hend : ¬s.wouldPass s.spec.stop = true) (hpass : ¬s.wouldPass target = true) :
    RunMove s target .advance

theorem runMove_nextMove (s : Sim α) (target : α) :
    RunMove s target (s.nextMove (.run target)) := by
  by_cases hc : s.phase = .complete
  · rw [nextMove_of_complete hc]
    exact .still hc
  · by_cases hp : s.phase = .fresh
    · rw [nextMove_of_fresh hp]
      exact .start hp
    · by_cases hend : s.wouldPass s.spec.stop = true
      · rw [nextMove_of_end hp hc hend]
        exact .finish hp hc hend
      · by_cases hpass : s.wouldPass target = true
        · rw [nextMove_of_pass hp hc hend hpass]
          exact .rest hp hc hend hpass
        · rw [nextMove_of_step hp hc hend hpass]
          exact .advance hp hc hend hpass

/-- The moves that a simulation can come to make: it starts once, and after that it steps and comes
to rest. -/
inductive Due (s : Sim α) : Move α → Prop where
  | set (name : String) (x : α) : Due s (.set name x)
  | start (hp : s.phase = .fresh) : Due s .start
  | advance (hp : s.phase ≠ .fresh) : Due s .advance
  | rest {phase : Phase} (hp : s.phase ≠ .fresh) (hphase : phase ≠ .fresh) : Due s (.rest phase)

theorem RunMove.due {m : Move α} (h : RunMove s target m) : s.Due m := by
  cases h with
  | still hc => exact .rest (hc.trans_ne (by decide)) (by decide)
  | start hp => exact .start hp
  | finish hp => exact .rest hp (by decide)
  | rest hp => exact .rest hp hp
  | advance hp => exact .advance hp

theorem due_nextMove (s : Sim α) (c : Command α) : s.Due (s.nextMove c) := by
  cases c with
  | set name x => exact .set name x
  | run target => exact (s.runMove_nextMove target).due

omit [Scalar α] in
theorem isOver_eq_false_iff {m : Move α} :
    m.isOver r = false ↔ (m = .start ∨ m = .advance) ∧ r.fault = none := by
  cases m <;> simp [Move.isOver]

/-- A run with a move that is over has the answer of that move. -/
theorem runTo_of_over {m : Move α} (hm : RunMove s target m)
    (hover : m.isOver (s.make b m) = true) :
    s.runTo (fuel + 1) target b = some (s.make b m) := by
  cases hm with
  | still hc =>
    rw [runTo_of_complete hc, make, ← hc]
  | start hp => exact runTo_of_start_fault hp (Option.isSome_iff_ne_none.mp hover)
  | finish hp hc hend => rw [runTo_of_begun hp hc, stepTo_of_end hend, make]
  | rest hp hc hend hpass => rw [runTo_of_begun hp hc, stepTo_of_pass hend hpass, make]
  | advance hp hc hend hpass =>
    obtain ⟨e, he⟩ := Option.isSome_iff_exists.mp hover
    rw [runTo_of_begun hp hc, stepTo_of_fault hend hpass he, make]

/-- A run goes on after a move that did not end it. -/
theorem runTo_of_make {m : Move α} (hm : RunMove s target m)
    (hover : m.isOver (s.make b m) = false)
    (h : (s.make b m).sim.runTo fuel target (s.make b m).board = some r) :
    s.runTo (fuel + 1) target b = some r := by
  have hok := (isOver_eq_false_iff.mp hover).2
  cases hm with
  | still | finish | rest => cases hover
  | start hp =>
    have hphase := phase_start_of_ok hok
    rw [make, runTo_of_begun (hphase.trans_ne (by decide)) (hphase.trans_ne (by decide))] at h
    rw [runTo_of_start hp hok]
    exact stepTo_mono h (Nat.le_succ fuel)
  | advance hp hc hend hpass =>
    have hphase := phase_advance_of_ok hok
    rw [make, runTo_of_begun (hphase.trans_ne (by decide)) (hphase.trans_ne (by decide))] at h
    rw [runTo_of_begun hp hc, stepTo_of_ok hend hpass hok]
    exact h

/-- A call with a move that is over has the answer of that move. -/
theorem perform_of_over {c : Command α}
    (hover : (s.nextMove c).isOver (s.make b (s.nextMove c)) = true) :
    s.perform (fuel + 1) b c = some (s.make b (s.nextMove c)) := by
  cases c with
  | run target => exact runTo_of_over (s.runMove_nextMove target) hover
  | set name x => rfl

/-- A call goes on after a move that did not end it. -/
theorem perform_of_make {c : Command α}
    (hover : (s.nextMove c).isOver (s.make b (s.nextMove c)) = false)
    (h : (s.make b (s.nextMove c)).sim.perform fuel (s.make b (s.nextMove c)).board c = some r) :
    s.perform (fuel + 1) b c = some r := by
  cases c with
  | run target => exact runTo_of_make (s.runMove_nextMove target) hover h
  | set name x => cases hover

theorem perform_mono {c : Command α} {fuel' : Nat} (h : s.perform fuel b c = some r)
    (hle : fuel ≤ fuel') : s.perform fuel' b c = some r := by
  cases c with
  | run target => exact runTo_mono h hle
  | set name x => exact h

end Sim

/-! ## Moves and answers -/

namespace Progress

variable {p : Progress α} {c : Sim.Command α} {rest : List (Sim.Command α)}
  {answers : List (Option RunFault)}

theorem after_zero (p : Progress α) : p.after 0 = p := rfl

theorem after_succ (p : Progress α) (n : Nat) : p.after (n + 1) = p.next.after n :=
  Function.iterate_succ_apply ..

theorem after_succ' (p : Progress α) (n : Nat) : p.after (n + 1) = (p.after n).next :=
  Function.iterate_succ_apply' ..

theorem after_add (p : Progress α) (m n : Nat) : p.after (m + n) = (p.after m).after n := by
  rw [after, Nat.add_comm, Function.iterate_add_apply]
  rfl

theorem next_of_over {m : Move α} (hm : s.nextMove c = m) (hover : m.isOver (s.make b m) = true) :
    next ⟨s, b, c :: rest, answers⟩ =
      ⟨(s.make b m).sim, (s.make b m).board, rest, answers ++ [(s.make b m).fault]⟩ := by
  subst hm
  exact if_pos hover

theorem next_of_going {m : Move α} (hm : s.nextMove c = m)
    (hover : m.isOver (s.make b m) = false) :
    next ⟨s, b, c :: rest, answers⟩ =
      ⟨(s.make b m).sim, (s.make b m).board, c :: rest, answers⟩ := by
  subst hm
  exact if_neg (by rw [hover]; exact Bool.false_ne_true)

/-- Calls that are all answered stay so. -/
theorem after_of_pending_eq_nil (h : p.pending = []) (n : Nat) : p.after n = p := by
  have hnext : p.next = p := by
    unfold next
    rw [h]
  exact Function.iterate_fixed hnext n

/-- The moves of steps that have an end. -/
theorem exists_after_stepTo (rest : List (Sim.Command α)) (answers : List (Option RunFault))
    (hp : s.phase ≠ .fresh) (hc : s.phase ≠ .complete)
    (h : Sim.stepTo target fuel s b = some r) : ∃ n,
      after ⟨s, b, .run target :: rest, answers⟩ n =
        ⟨r.sim, r.board, rest, answers ++ [r.fault]⟩ := by
  fun_induction Sim.stepTo target fuel s b with
  | case1 => cases h
  | case2 fuel s b hend =>
    cases h
    exact ⟨1, next_of_over (Sim.nextMove_of_end hp hc hend) rfl⟩
  | case3 fuel s b hend hpass =>
    cases h
    exact ⟨1, next_of_over (Sim.nextMove_of_pass hp hc hend hpass) rfl⟩
  | case4 fuel s b hend hpass _ hok ih =>
    have hphase := Sim.phase_advance_of_ok hok
    obtain ⟨n, hn⟩ := ih (hphase.trans_ne (by decide)) (hphase.trans_ne (by decide)) h
    refine ⟨n + 1, ?_⟩
    rw [after_succ, next_of_going (Sim.nextMove_of_step hp hc hend hpass)
      (Option.isSome_eq_false_iff.mpr (Option.isNone_iff_eq_none.mpr hok))]
    exact hn
  | case5 fuel s b hend hpass _ e hf =>
    rw [← Option.some.inj h]
    exact ⟨1, next_of_over (Sim.nextMove_of_step hp hc hend hpass)
      (Option.isSome_iff_exists.mpr ⟨e, hf⟩)⟩

/-- The moves of a call that has an answer. -/
theorem exists_after_perform (rest : List (Sim.Command α)) (answers : List (Option RunFault))
    (h : s.perform fuel b c = some r) : ∃ n,
    after ⟨s, b, c :: rest, answers⟩ n = ⟨r.sim, r.board, rest, answers ++ [r.fault]⟩ := by
  cases c with
  | set name x =>
    cases h
    exact ⟨1, rfl⟩
  | run target =>
    rcases Sim.runTo_cases h with ⟨hc, rfl⟩ | ⟨hp, hf, rfl⟩ | ⟨hp, hok, hr⟩ | ⟨hp, hc, hr⟩
    · refine ⟨1, (next_of_over (Sim.nextMove_of_complete hc) rfl).trans ?_⟩
      rw [Sim.make, ← hc]
    · exact ⟨1, next_of_over (Sim.nextMove_of_fresh hp) (Option.isSome_iff_ne_none.mpr hf)⟩
    · have hphase := Sim.phase_start_of_ok hok
      obtain ⟨n, hn⟩ := exists_after_stepTo rest answers
        (hphase.trans_ne (by decide)) (hphase.trans_ne (by decide)) hr
      refine ⟨n + 1, ?_⟩
      rw [after_succ, next_of_going (Sim.nextMove_of_fresh hp)
        (Option.isSome_eq_false_iff.mpr (Option.isNone_iff_eq_none.mpr hok))]
      exact hn
    · exact exists_after_stepTo rest answers hp hc hr

/-- The moves of calls that are all answered. -/
theorem exists_after_performAll {commands : List (Sim.Command α)} {served : List (Sim.Served α)}
    (answers : List (Option RunFault))
    (h : Sim.performAll fuel commands s b = some (served, s', b')) : ∃ n,
      after ⟨s, b, commands, answers⟩ n =
        ⟨s', b', [], answers ++ served.map Sim.Served.fault⟩ := by
  induction commands generalizing s b answers served with
  | nil =>
    cases h
    exact ⟨0, by rw [after_zero, List.map_nil, List.append_nil]⟩
  | cons c commands ih =>
    obtain ⟨r, hone, h⟩ := Option.bind_eq_some_iff.mp h
    obtain ⟨⟨others, last⟩, hothers, h⟩ := Option.bind_eq_some_iff.mp h
    cases h
    obtain ⟨m, hm⟩ := exists_after_perform commands answers hone
    obtain ⟨n, hn⟩ := ih (answers ++ [r.fault]) hothers
    refine ⟨m + n, ?_⟩
    rw [after_add, hm, hn, List.append_assoc]
    rfl

theorem performAll_cons {commands : List (Sim.Command α)} {served : List (Sim.Served α)}
    (hone : s.perform fuel b c = some r)
    (hothers : Sim.performAll fuel commands r.sim r.board = some (served, s', b')) :
    Sim.performAll fuel (c :: commands) s b =
      some (⟨r.fault, s.states fuel b r c⟩ :: served, s', b') := by
  rw [Sim.performAll, hone, Option.bind_eq_bind, Option.bind_some, hothers]
  rfl

/-- More fuel changes no answer. -/
theorem performAll_mono {commands : List (Sim.Command α)} {served : List (Sim.Served α)}
    {fuel' : Nat} (h : Sim.performAll fuel commands s b = some (served, s', b'))
    (hle : fuel ≤ fuel') : ∃ served', Sim.performAll fuel' commands s b = some (served', s', b') ∧
      served'.map Sim.Served.fault = served.map Sim.Served.fault := by
  induction commands generalizing s b served with
  | nil => exact ⟨served, h, rfl⟩
  | cons c commands ih =>
    obtain ⟨r, hone, h⟩ := Option.bind_eq_some_iff.mp h
    obtain ⟨⟨others, last⟩, hothers, h⟩ := Option.bind_eq_some_iff.mp h
    cases h
    obtain ⟨others', hothers', hfaults⟩ := ih hothers
    refine ⟨_, performAll_cons (Sim.perform_mono hone hle) hothers', ?_⟩
    rw [List.map_cons, List.map_cons, hfaults]

/-- Calls that are all answered after some moves have those answers. -/
theorem exists_performAll (h : (p.after n).pending = []) : ∃ fuel served,
    Sim.performAll fuel p.pending p.sim p.board =
        some (served, (p.after n).sim, (p.after n).board) ∧
      (p.after n).answers = p.answers ++ served.map Sim.Served.fault := by
  induction n generalizing p with
  | zero =>
    rw [after_zero] at h ⊢
    exact ⟨0, [], by rw [h]; rfl, by rw [List.map_nil, List.append_nil]⟩
  | succ n ih =>
    obtain ⟨s, b, pending, answers⟩ := p
    cases pending with
    | nil =>
      rw [after_of_pending_eq_nil rfl]
      exact ⟨0, [], rfl, by rw [List.map_nil, List.append_nil]⟩
    | cons c rest =>
      rw [after_succ] at h ⊢
      obtain ⟨fuel, served, hserved, hanswers⟩ := ih h
      cases hover : (s.nextMove c).isOver (s.make b (s.nextMove c)) with
      | true =>
        -- the first call is over, and the others are served from where it led
        rw [next_of_over rfl hover] at hserved hanswers ⊢
        obtain ⟨served', hserved', hfaults⟩ := performAll_mono hserved (Nat.le_succ fuel)
        refine ⟨fuel + 1, _, performAll_cons (Sim.perform_of_over hover) hserved', ?_⟩
        rw [hanswers, List.append_assoc, List.map_cons, hfaults]
        rfl
      | false =>
        -- the first call goes on from where its first move led
        rw [next_of_going rfl hover] at hserved hanswers ⊢
        obtain ⟨r, hone, hserved⟩ := Option.bind_eq_some_iff.mp hserved
        obtain ⟨⟨others, last⟩, hothers, hserved⟩ := Option.bind_eq_some_iff.mp hserved
        cases hserved
        obtain ⟨others', hothers', hfaults⟩ := performAll_mono hothers (Nat.le_succ fuel)
        refine ⟨fuel + 1, _, performAll_cons (Sim.perform_of_make hover hone) hothers', ?_⟩
        rw [hanswers, List.map_cons, List.map_cons, hfaults]

/-- **Calls are served as `Sim.performAll` says:** where that has an answer, it is where the moves
lead, and where the moves lead to the last answer, it has one. -/
theorem performAll_iff {commands : List (Sim.Command α)} {faults : List (Option RunFault)} :
    (∃ fuel served, Sim.performAll fuel commands s b = some (served, s', b') ∧
        served.map Sim.Served.fault = faults) ↔
      ∃ n, (begin s b commands).after n = ⟨s', b', [], faults⟩ := by
  constructor
  · rintro ⟨fuel, served, h, rfl⟩
    exact exists_after_performAll [] h
  · rintro ⟨n, hn⟩
    obtain ⟨fuel, served, h, hfaults⟩ := exists_performAll (p := begin s b commands) (n := n)
      (by rw [hn])
    rw [hn] at h hfaults
    exact ⟨fuel, served, h, hfaults.symm⟩

end Progress

/-! ## What moves leave alone and what they record -/

namespace Sim

theorem continues_make (s : Sim α) (b : Board α) (m : Move α) : s.Continues (s.make b m).sim := by
  cases m with
  | set name x => exact s.continues_setValue name x b
  | start => exact s.continues_start b
  | advance => exact s.continues_advance b
  | rest phase => exact ⟨rfl, rfl, rfl, rfl, rfl, rfl⟩

theorem report_apply (s : Sim α) (b : Board α) (rules : List (Rule α)) :
    (s.apply b rules).sim.report = s.report := by
  obtain ⟨v, hv, _⟩ := s.apply_sim b rules
  rw [hv]
  rfl

/-- A start that does not get through records nothing. -/
theorem report_start_of_fault (hf : (s.start b).fault ≠ none) :
    (s.start b).sim.report = s.report := by
  unfold start at hf ⊢
  by_cases hi : (s.apply b s.model.equations.initials).fault = none
  · rw [Reached.andThen_of_ok hi] at hf ⊢
    have hne : ((s.apply b s.model.equations.initials).sim.apply
        (s.apply b s.model.equations.initials).board
        (s.apply b s.model.equations.initials).sim.model.equations.flows).fault ≠ none :=
      fun hok => hf (by rw [Reached.andThen_of_ok hok])
    rw [Reached.andThen_of_fault hne, report_apply, report_apply]
  · rw [Reached.andThen_of_fault hi, Reached.andThen_of_fault hi, report_apply]

/-- A step that does not get through records nothing. -/
theorem report_advance_of_fault (hf : (s.advance b).fault ≠ none) :
    (s.advance b).sim.report = s.report := by
  cases he : s.evalAll b ∅ s.model.equations.stocks with | mk res b' =>
  cases res with
  | error e => rw [advance_of_error he]
  | ok w =>
    rw [advance_of_ok he] at hf ⊢
    have hne : ((s.moved w).apply b' s.model.equations.flows).fault ≠ none :=
      fun hok => hf (by rw [Reached.andThen_of_ok hok])
    rw [Reached.andThen_of_fault hne, report_apply]
    rfl

omit [Scalar α] in
theorem report_setValue (s : Sim α) (name : String) (x : α) (b : Board α) :
    (s.setValue name x b).sim.report = s.report := by
  rcases s.setValue_cases name x b with ⟨e, he⟩ | ⟨_, _, he⟩
  · rw [he]
  · rw [he]
    by_cases hp : s.phase = .fresh
    · rw [if_pos hp]
    · rw [if_neg hp]
      rfl

/-- **What a move records:** nothing, or the row of the state where a start or a step led. -/
theorem rows_make (hs : s.Sound) (b : Board α) (m : Move α) :
    (s.make b m).sim.report.rows = s.report.rows ∨
      (m = .start ∨ m = .advance) ∧ (s.make b m).fault = none ∧
        (s.make b m).sim.report.rows = s.report.rows.push (s.make b m).sim.row := by
  cases m with
  | set name x => exact Or.inl (congrArg Report.rows (s.report_setValue name x b))
  | rest phase => exact Or.inl rfl
  | start =>
    by_cases hok : (s.start b).fault = none
    · refine Or.inr ⟨Or.inl rfl, hok, ?_⟩
      obtain ⟨u, v, _, _, hsim, _⟩ := start_ok hs.model hok
      rw [make, hsim]
      exact save_rows (s.withValues v)
    · exact Or.inl (congrArg Report.rows (report_start_of_fault hok))
  | advance =>
    by_cases hok : (s.advance b).fault = none
    · by_cases hdue : (s.advance b).sim.isDue = true
      · refine Or.inr ⟨Or.inr rfl, hok, ?_⟩
        rw [make, rows_advance hs hok, if_pos hdue]
      · refine Or.inl ?_
        rw [make, rows_advance hs hok, if_neg hdue]
    · exact Or.inl (congrArg Report.rows (report_advance_of_fault hok))

end Sim

namespace Progress

variable {p : Progress α}

/-- Where a move leads, in the simulation and on the board. -/
theorem next_sim (s : Sim α) (b : Board α) (c : Sim.Command α) (rest : List (Sim.Command α))
    (answers : List (Option RunFault)) :
    (next ⟨s, b, c :: rest, answers⟩).sim = (s.make b (s.nextMove c)).sim ∧
      (next ⟨s, b, c :: rest, answers⟩).board = (s.make b (s.nextMove c)).board := by
  cases hover : (s.nextMove c).isOver (s.make b (s.nextMove c)) with
  | true =>
    rw [next_of_over rfl hover]
    exact ⟨rfl, rfl⟩
  | false =>
    rw [next_of_going rfl hover]
    exact ⟨rfl, rfl⟩

theorem continues_next (p : Progress α) : p.sim.Continues p.next.sim := by
  obtain ⟨s, b, pending, answers⟩ := p
  cases pending with
  | nil => exact .refl s
  | cons c rest =>
    rw [(next_sim s b c rest answers).1]
    exact s.continues_make b _

theorem continues_after (p : Progress α) (n : Nat) : p.sim.Continues (p.after n).sim := by
  induction n with
  | zero => exact .refl p.sim
  | succ n ih =>
    rw [after_succ']
    exact ih.trans (p.after n).continues_next

/-- **What is recorded on the way:** nothing, or the row of the state where a start or a step
led. -/
theorem rows_next (hs : p.sim.Sound) :
    p.next.rows = p.rows ∨
      ∃ m, p.sim.Due m ∧ (m = .start ∨ m = .advance) ∧ (p.sim.make p.board m).fault = none ∧
        p.next.sim = (p.sim.make p.board m).sim ∧ p.next.rows = p.rows ++ [p.next.sim.row] := by
  obtain ⟨s, b, pending, answers⟩ := p
  cases pending with
  | nil => exact Or.inl rfl
  | cons c rest =>
    have hsim := (next_sim s b c rest answers).1
    unfold rows
    rw [hsim]
    rcases Sim.rows_make hs b (s.nextMove c) with hrows | ⟨hkind, hok, hrows⟩
    · exact Or.inl (congrArg Array.toList hrows)
    · exact Or.inr ⟨_, s.due_nextMove c, hkind, hok, rfl, by rw [hrows, Array.toList_push]⟩

/-- Nothing that is recorded is changed or taken away. -/
theorem rows_prefix_next (hs : p.sim.Sound) : p.rows <+: p.next.rows := by
  rcases rows_next hs with h | ⟨_, _, _, _, _, h⟩
  · exact h ▸ List.prefix_rfl
  · exact h ▸ List.prefix_append ..

end Progress

end StockFlow
