import StockFlow.Proofs.Engine.Progress

/-!
# Boards that close

A board may close at any moment, also between two questions of one step. Up to then a simulation
cannot tell it from a board that stays open. Afterwards it may still make moves that need no answer,
but if some rule asks for a default, no start and no step will get through any more, and so nothing
is recorded.

* `Board.reopened` — a board as it would be if nobody closed it
* `Sim.start_reopened`, `Sim.advance_reopened` — what gets through does the same on it
* `Sim.Barred` — no start and no step will get through
* `Sim.make_reopened` — a move does the same on it, or no start and no step will get through
* `Progress.follows_after` — calls are served the same on it, or nothing more is recorded
* `Progress.isRow_of_mem_rows` — what is recorded is whole
-/

namespace StockFlow

variable {α : Type}

/-! ## Boards that would have stayed open -/

/-- A board as it would be if nobody closed it. -/
def Board.reopened (b : Board α) : Board α := { b with remaining := none }

theorem Board.Spent.reopened_eq {b b' : Board α} (h : b.Spent b') : b'.reopened = b.reopened := by
  obtain ⟨k, rfl⟩ := h
  rfl

theorem Board.spent_reopened {b b' : Board α} (h : b.reopened.Spent b') : b' = b.reopened :=
  h.eq_of_running rfl

/-- What was reached, with the board as it would be if nobody closed it. -/
def Reached.reopened (r : Reached α) : Reached α := { r with board := r.board.reopened }

theorem Reached.reopened_andThen {r : Reached α} {next : Sim α → Board α → Reached α}
    (hok : r.fault = none)
    (hnext : next r.sim r.board.reopened = (next r.sim r.board).reopened) :
    r.reopened.andThen next = (r.andThen next).reopened := by
  rw [andThen_of_ok hok, andThen_of_ok (r := r.reopened) hok]
  exact hnext

namespace Sim

variable {s s' : Sim α} {b b' : Board α}

/-- Some rule asks for a default, and the board is closed. -/
structure Barred (s : Sim α) (b : Board α) : Prop where
  closed : b.isOpen = false
  asker : ∃ q, s.Asker q

theorem Barred.continues (h : s.Barred b) (hs : s.Continues s') : s'.Barred b := by
  obtain ⟨q, hq, hasks⟩ := h.asker
  exact ⟨h.closed, q, by rwa [hs.model], hasks⟩

variable [Scalar α]

/-! ## What gets through -/

/-- What has a value has the same value on a board that stays open. -/
theorem eval_reopened {f : Formula α} {x : α} (h : s.eval f b = (.ok x, b')) :
    s.eval f b.reopened = (.ok x, b.reopened) := by
  have hvalue : f.value? (s.setting b.reopened) = some x := by
    cases h ▸ evaluated_eval s f b with
    | value hx _ => exact hx
  cases hr : s.eval f b.reopened with | mk res b₁ =>
  cases hr ▸ evaluated_eval s f b.reopened with
  | value hx spent =>
    rw [Option.some.inj (hx.symm.trans hvalue), Board.spent_reopened spent]
  | unknown hx _ => cases hx.symm.trans hvalue
  | stopped closed spent _ =>
    rw [Board.spent_reopened spent] at closed
    cases closed

theorem apply_reopened {rules : List (Rule α)} (h : (s.apply b rules).fault = none) :
    s.apply b.reopened rules = (s.apply b rules).reopened := by
  induction rules generalizing s b with
  | nil => rfl
  | cons r rules ih =>
    rw [apply] at h
    rw [apply, apply]
    cases hr : s.eval r.formula b with | mk res b₁ =>
    rw [hr] at h
    cases res with
    | error e => cases h
    | ok x =>
      rw [eval_reopened hr, ← (spent_eval hr).reopened_eq]
      exact ih h

theorem evalAll_reopened {rules : List (Rule α)} {found v : Values α}
    (h : s.evalAll b found rules = (.ok v, b')) :
    s.evalAll b.reopened found rules = (.ok v, b.reopened) := by
  induction rules generalizing b found with
  | nil =>
    cases h
    rfl
  | cons r rules ih =>
    rw [evalAll] at h ⊢
    cases hr : s.eval r.formula b with | mk res b₁ =>
    rw [hr] at h
    cases res with
    | error e => cases h
    | ok x =>
      rw [eval_reopened hr]
      have hrest := ih h
      rwa [(spent_eval hr).reopened_eq] at hrest

/-- **A start that gets through does the same on a board that stays open.** -/
theorem start_reopened (h : (s.start b).fault = none) :
    s.start b.reopened = (s.start b).reopened := by
  unfold start at h ⊢
  have hboth := Reached.ok_of_andThen h
  have hi := Reached.ok_of_andThen hboth
  rw [apply_reopened hi, Reached.reopened_andThen hi, Reached.reopened_andThen hboth]
  · rfl
  · rw [Reached.andThen_of_ok hi] at hboth
    exact apply_reopened hboth

/-- **A step that gets through does the same on a board that stays open.** -/
theorem advance_reopened (h : (s.advance b).fault = none) :
    s.advance b.reopened = (s.advance b).reopened := by
  cases he : s.evalAll b ∅ s.model.equations.stocks with | mk res b₁ =>
  cases res with
  | error e =>
    rw [advance_of_error he] at h
    cases h
  | ok w =>
    have hspent := s.evalAll_spent b ∅ s.model.equations.stocks
    rw [he] at hspent
    rw [advance_of_ok he] at h
    have hflows := Reached.ok_of_andThen h
    rw [advance_of_ok he, advance_of_ok (evalAll_reopened he), ← hspent.reopened_eq,
      apply_reopened hflows, Reached.reopened_andThen hflows rfl]

/-! ## What does not get through -/

/-- A start and a step that do not get through met a closed board, which some rule asks. -/
theorem Fresh.barred_of_fault (h : s.Fresh) (hs : s.Sound) (hf : (s.start b).fault ≠ none) :
    Barred (s.start b).sim (s.start b).board := by
  rcases h.start hs (b := b) with ⟨hok, _⟩ | ⟨_, hstuck⟩
  · exact absurd hok hf
  · exact ⟨hstuck.closed, hstuck.asker⟩

theorem Running.barred_of_fault (h : s.Running) (hs : s.Sound) (hf : (s.advance b).fault ≠ none) :
    Barred (s.advance b).sim (s.advance b).board := by
  rcases h.advance hs (b := b) with ⟨hok, _⟩ | ⟨_, hbroken⟩
  · exact absurd hok hf
  · obtain ⟨q, hq, _⟩ := hbroken.lost
    exact ⟨hbroken.closed, q, hq⟩

omit [Scalar α] in
/-- What can be set is asked for by a rule. -/
theorem exists_asker_of_isOverridable {name : String} (h : s.model.isOverridable name = true) :
    ∃ q, s.Asker q := by
  obtain ⟨q, hq, hname⟩ := List.any_eq_true.mp h
  have hreads := (Bool.and_eq_true_iff.mp hname).2
  exact ⟨q, hq, List.ne_nil_of_mem (Formula.readsDefault_iff.mp hreads)⟩

theorem Barred.start (h : s.Barred b) (hs : s.Sound) : (s.start b).fault ≠ none := by
  intro hok
  obtain ⟨q, hq⟩ := h.asker
  -- a start that got through would have served the rule that asks
  unfold Sim.start at hok
  have hboth := Reached.ok_of_andThen hok
  have hi := Reached.ok_of_andThen hboth
  obtain ⟨u, hu, hspent, _⟩ := apply_ok hs.model.initials hi
  rw [Reached.andThen_of_ok hi, hu] at hboth
  exact (apply_closed hs.model.flows.nodup (hspent.isOpen_eq_false h.closed) hq.1 hq.2).1 hboth

theorem Barred.advance (h : s.Barred b) (hs : s.Sound) : (s.advance b).fault ≠ none := by
  intro hok
  obtain ⟨q, hq⟩ := h.asker
  have hspent := s.evalAll_spent b ∅ s.model.equations.stocks
  cases he : s.evalAll b ∅ s.model.equations.stocks with | mk res b₁ =>
  rw [he] at hspent
  cases res with
  | error e =>
    rw [advance_of_error he] at hok
    cases hok
  | ok w =>
    rw [advance_of_ok he] at hok
    exact (apply_closed (s := s.moved w) hs.model.flows.nodup (hspent.isOpen_eq_false h.closed)
      hq.1 hq.2).1 (Reached.ok_of_andThen hok)

/-! ## Moves -/

omit [Scalar α] in
/-- A setting is answered the same on a board that stays open, or the closed board refuses it. -/
theorem setValue_reopened (s : Sim α) (name : String) (x : α) (b : Board α) :
    s.setValue name x b.reopened = (s.setValue name x b).reopened ∨
      s.Barred b ∧ (s.setValue name x b).sim = s ∧ (s.setValue name x b).board = b := by
  unfold setValue
  split
  · exact Or.inl rfl
  · split
    · exact Or.inl rfl
    · rename_i _ hover
      have hkept : b.reopened.set s.id name x = (.ok (), b.reopened.pin s.id name x) :=
        Board.set_of_running rfl s.id name x
      rw [hkept, Board.set_eq]
      cases hopen : b.isOpen with
      | true => exact Or.inl rfl
      | false =>
        have hasker := exists_asker_of_isOverridable (by simpa using hover)
        exact Or.inr ⟨⟨hopen, hasker⟩, rfl, rfl⟩

/-- **A move does the same on a board that stays open,** and nothing goes wrong, or it met a closed
board, which some rule asks, and recorded nothing. -/
theorem make_reopened {m : Move α} (hm : s.Due m) (h : s.Alive) (hs : s.Sound) (b : Board α) :
    s.make b.reopened m = (s.make b m).reopened ∧ (s.make b m).sim.Alive ∨
      Barred (s.make b m).sim (s.make b m).board ∧ (s.make b m).sim.report = s.report := by
  cases hm with
  | set name x =>
    rcases s.setValue_reopened name x b with hsame | ⟨hbarred, hsim, hboard⟩
    · exact Or.inl ⟨hsame, h.setValue name x b⟩
    · refine Or.inr ⟨?_, s.report_setValue name x b⟩
      rwa [make, hsim, hboard]
  | start hp =>
    by_cases hok : (s.start b).fault = none
    · exact Or.inl ⟨start_reopened hok, Or.inr (h.start_of_ok hs hp hok).1⟩
    · exact Or.inr ⟨(h.fresh hp).barred_of_fault hs hok, report_start_of_fault hok⟩
  | advance hp =>
    have hrun := h.running hp
    by_cases hok : (s.advance b).fault = none
    · have hnext := Running.advance_of_ok ⟨hrun, hs, .refl s⟩ hok
      exact Or.inl ⟨advance_reopened hok, Or.inr hnext.1⟩
    · exact Or.inr ⟨hrun.barred_of_fault hs hok, report_advance_of_fault hok⟩
  | rest hp hphase =>
    have hrun := h.running hp
    exact Or.inl ⟨rfl, Or.inr ⟨hphase, hrun.settled.congr rfl rfl, hrun.rows⟩⟩

/-- Nothing changes a closed board. -/
theorem board_make (hb : b.isOpen = false) (m : Move α) : (s.make b m).board = b := by
  cases m with
  | set name x => exact (setValue_closed hb name x).2
  | start => exact (s.spent_start b).eq_of_closed hb
  | advance => exact (s.spent_advance b).eq_of_closed hb
  | rest phase => rfl

/-- **Where no start and no step will get through, none does, and nothing is recorded.** -/
theorem Barred.make (h : s.Barred b) (hs : s.Sound) (m : Move α) :
    Barred (s.make b m).sim (s.make b m).board ∧ (s.make b m).sim.report.rows = s.report.rows := by
  refine ⟨?_, ?_⟩
  · rw [board_make h.closed]
    exact h.continues (s.continues_make b m)
  · rcases rows_make hs b m with hrows | ⟨rfl | rfl, hok, _⟩
    · exact hrows
    · exact absurd hok (h.start hs)
    · exact absurd hok (h.advance hs)

end Sim

/-! ## Calls -/

namespace Progress

open Sim

variable [Scalar α] {p : Progress α}

/-- The same calls on a board that stays open. -/
def reopened (p : Progress α) : Progress α := { p with board := p.board.reopened }

theorem reopened_next {s : Sim α} {b : Board α} {c : Command α} {rest : List (Command α)}
    {answers : List (Option RunFault)}
    (h : s.make b.reopened (s.nextMove c) = (s.make b (s.nextMove c)).reopened) :
    (reopened ⟨s, b, c :: rest, answers⟩).next = (next ⟨s, b, c :: rest, answers⟩).reopened := by
  have hsame : ∀ r : Reached α, (s.nextMove c).isOver r.reopened = (s.nextMove c).isOver r := by
    intro r
    cases s.nextMove c <;> rfl
  show next ⟨s, b.reopened, c :: rest, answers⟩ = _
  cases hover : (s.nextMove c).isOver (s.make b (s.nextMove c)) with
  | true =>
    rw [next_of_over rfl hover, next_of_over rfl (by rw [h, hsame, hover]), h]
    rfl
  | false =>
    rw [next_of_going rfl hover, next_of_going rfl (by rw [h, hsame, hover]), h]
    rfl

/-- **A call is served the same on a board that stays open,** and nothing goes wrong, or a move met
a closed board, which some rule asks, and recorded nothing. -/
theorem next_reopened (h : p.sim.Alive) (hs : p.sim.Sound) :
    p.reopened.next = p.next.reopened ∧ p.next.sim.Alive ∨
      p.next.sim.Barred p.next.board ∧ p.next.rows = p.rows := by
  obtain ⟨s, b, pending, answers⟩ := p
  cases pending with
  | nil => exact Or.inl ⟨rfl, h⟩
  | cons c rest =>
    obtain ⟨hsim, hboard⟩ := next_sim s b c rest answers
    rw [hsim, hboard]
    rcases s.make_reopened (s.due_nextMove c) h hs b with ⟨hsame, halive⟩ | ⟨hbarred, hreport⟩
    · exact Or.inl ⟨reopened_next hsame, halive⟩
    · refine Or.inr ⟨hbarred, ?_⟩
      rw [rows, hsim, hreport]
      rfl

/-- Once no start and no step will get through, nothing is recorded. -/
theorem next_barred (h : p.sim.Barred p.board) (hs : p.sim.Sound) :
    p.next.sim.Barred p.next.board ∧ p.next.rows = p.rows := by
  obtain ⟨s, b, pending, answers⟩ := p
  cases pending with
  | nil => exact ⟨h, rfl⟩
  | cons c rest =>
    obtain ⟨hsim, hboard⟩ := next_sim s b c rest answers
    obtain ⟨hbarred, hrows⟩ := h.make hs (s.nextMove c)
    rw [rows, hsim, hboard, hrows]
    exact ⟨hbarred, rfl⟩

/-- How calls are served on a board that may close, beside the same calls on one that stays open:
the same up to now, or no start and no step will get through and what was recorded before is
recorded there too. -/
def Follows (p kept : Progress α) : Prop :=
  kept = p.reopened ∧ p.sim.Alive ∨ p.sim.Barred p.board ∧ p.rows <+: kept.rows

omit [Scalar α] in
theorem Follows.rows_prefix {kept : Progress α} (h : p.Follows kept) : p.rows <+: kept.rows := by
  rcases h with ⟨rfl, _⟩ | ⟨_, hrows⟩
  · exact List.prefix_rfl
  · exact hrows

theorem Follows.next {kept : Progress α} (h : p.Follows kept) (hs : p.sim.Sound)
    (hs' : kept.sim.Sound) : p.next.Follows kept.next := by
  rcases h with ⟨rfl, halive⟩ | ⟨hbarred, hprefix⟩
  · rcases next_reopened halive hs with ⟨hsame, halive'⟩ | ⟨hbarred, hrows⟩
    · exact Or.inl ⟨hsame, halive'⟩
    · refine Or.inr ⟨hbarred, ?_⟩
      rw [hrows]
      exact rows_prefix_next (p := p.reopened) hs
  · obtain ⟨hbarred', hrows⟩ := next_barred hbarred hs
    refine Or.inr ⟨hbarred', ?_⟩
    rw [hrows]
    exact hprefix.trans (rows_prefix_next hs')

/-- **Calls on a board that may close follow those on one that stays open,** at any moment. -/
theorem follows_after (h : p.sim.Alive) (hs : p.sim.Sound) (n : Nat) :
    (p.after n).Follows (p.reopened.after n) := by
  induction n with
  | zero => exact Or.inl ⟨rfl, h⟩
  | succ n ih =>
    rw [after_succ', after_succ']
    exact ih.next (hs.continues (p.continues_after n))
      (hs.continues (p.reopened.continues_after n))

omit [Scalar α] in
/-- Calls on a board that may close are served the same on one that stays open if no rule asks for a
default. -/
theorem Follows.reopened_eq {kept : Progress α} (h : p.Follows kept) (hq : ∀ q, ¬p.sim.Asker q) :
    kept = p.reopened := by
  rcases h with ⟨heq, _⟩ | ⟨hbarred, _⟩
  · exact heq
  · obtain ⟨q, hask⟩ := hbarred.asker
    exact absurd hask (hq q)

end Progress

/-! ## Whole rows -/

/-- A row that holds the time of a state and the value of each recorded variable. -/
structure Sim.IsRow (s : Sim α) (row : α × List α) : Prop where
  time : s.value timeName = .ok row.1
  values : List.Forall₂ (fun name x => s.value name = .ok x) s.model.recorded row.2

theorem Sim.value_of_isSome [Scalar α] {s : Sim α} {name : String}
    (h : (s.values[name]?).isSome) : s.value name = .ok (s.values.getD name Scalar.undefined) := by
  obtain ⟨x, hx⟩ := Option.isSome_iff_exists.mp h
  rw [value, hx, Std.TreeMap.getD_eq_getD_getElem?, hx, Option.getD_some]

/-- Where every name has a value, the mark for what is undefined stands for none that is missing. -/
theorem Sim.isRow_row [Scalar α] {s : Sim α} (h : s.Settled) (hs : s.Sound) : s.IsRow s.row := by
  refine ⟨value_of_isSome (h _ (List.mem_cons_self ..)), ?_⟩
  rw [row, hs.names, List.forall₂_map_right_iff, List.forall₂_same]
  exact fun name hname => value_of_isSome (h name (hs.model.recorded hname))

namespace Progress

open Sim

variable [Scalar α] {p : Progress α}

/-- A state that is recorded has a value for every name. -/
theorem settled_next (h : p.sim.Alive ∨ p.sim.Barred p.board) (hs : p.sim.Sound) :
    p.next.rows = p.rows ∨ p.next.rows = p.rows ++ [p.next.sim.row] ∧ p.next.sim.Settled := by
  rcases rows_next hs with hrows | ⟨m, hdue, hkind, hok, hsim, hrows⟩
  · exact Or.inl hrows
  · refine Or.inr ⟨hrows, ?_⟩
    rw [hsim]
    rcases hkind with rfl | rfl
    · rcases h with halive | hbarred
      · cases hdue with
        | start hp => exact (halive.start_of_ok hs hp hok).1.settled
      · exact absurd hok (hbarred.start hs)
    · exact settled_advance hs.model hok

/-- **Each row that is recorded on the way is a whole row of the state at some moment.** -/
theorem isRow_of_mem_rows (h : p.sim.Alive) (hs : p.sim.Sound) {n : Nat} {row : α × List α}
    (hrow : row ∈ (p.after n).rows) : row ∈ p.rows ∨ ∃ m ≤ n, (p.after m).sim.IsRow row := by
  induction n with
  | zero => exact Or.inl hrow
  | succ n ih =>
    have hs' := hs.continues (p.continues_after n)
    have hcondition : (p.after n).sim.Alive ∨ (p.after n).sim.Barred (p.after n).board := by
      rcases follows_after h hs n with ⟨_, halive⟩ | ⟨hbarred, _⟩
      · exact Or.inl halive
      · exact Or.inr hbarred
    have hearlier : row ∈ (p.after n).rows →
        row ∈ p.rows ∨ ∃ m ≤ n + 1, (p.after m).sim.IsRow row := by
      intro hmem
      rcases ih hmem with hold | ⟨m, hm, hisRow⟩
      · exact Or.inl hold
      · exact Or.inr ⟨m, Nat.le_succ_of_le hm, hisRow⟩
    rcases settled_next hcondition hs' with hrows | ⟨hrows, hsettled⟩
    · rw [after_succ', hrows] at hrow
      exact hearlier hrow
    · rw [after_succ', hrows, List.mem_append, List.mem_singleton] at hrow
      rcases hrow with hmem | rfl
      · exact hearlier hmem
      · rw [← after_succ'] at hsettled ⊢
        exact Or.inr ⟨n + 1, le_rfl, isRow_row hsettled (hs.continues (p.continues_after (n + 1)))⟩

end Progress

end StockFlow
