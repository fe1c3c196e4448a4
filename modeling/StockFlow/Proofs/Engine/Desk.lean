import StockFlow.Proofs.Engine.Turn

/-!
# Many clients at one board

Requests are not put to the board by the one who asks. They are written into a queue, and a single
worker takes them out one after the other. So the requests of all clients come into one order, in
which each client's own are mixed with everybody else's in whatever way it happens.

The worker is asked to leave by a request like any other. When he takes it out he stops. What stands
behind it in the queue is thrown away with the queue, and what comes later is not taken any more. To
those who wait, both look like a board that is closed.

* `Desk` — a board with its queue, what was sent and what was answered
* `Desk.Orderly` — one step after the other, the board is where the requests taken out have led it
* `Desk.serial_run` — however the clients' requests are mixed, each is answered what it is owed
-/

namespace StockFlow

variable {α : Type}

/-- A request as it was sent. -/
structure Letter (α : Type) where
  /-- How many were sent before it. -/
  number : Nat
  client : Nat
  request : Request α

/-- What can happen next. -/
inductive Act (α : Type) where
  /-- A client sends a request. -/
  | send (client : Nat) (r : Request α)
  /-- The worker takes a request out of the queue. -/
  | serve
  /-- The worker, who was asked to leave, throws the queue away. -/
  | leave

/-- Whether a request asks the worker to leave. -/
def Request.isClose : Request α → Bool
  | close => true
  | _ => false

/-- A board with its queue. -/
structure Desk (α : Type) where
  board : Board α
  queue : List (Letter α)
  /-- Whether the worker was asked to leave. -/
  stopping : Bool
  /-- Whether the queue is gone. -/
  gone : Bool
  /-- All that was ever sent. -/
  sent : List (Letter α)
  /-- All that was ever answered. -/
  answers : List (Letter α × Receipt α)

namespace Desk

/-- A desk at which nothing has happened. -/
def fresh : Desk α := ⟨.empty, [], false, false, [], []⟩

/-- Hands a request to the board. -/
def settle (d : Desk α) (l : Letter α) : Desk α :=
  { d with
    board := (d.board.turn l.request).2
    answers := d.answers ++ ((d.board.turn l.request).1.map fun o => (l, o)).toList }

/-- The letter in which a client's request is sent. -/
def letter (d : Desk α) (client : Nat) (r : Request α) : Letter α := ⟨d.sent.length, client, r⟩

/-- Notes that a letter was sent. -/
def note (d : Desk α) (l : Letter α) : Desk α :=
  { d with sent := d.sent ++ [l], stopping := d.stopping || l.request.isClose }

/-- Takes in what a client sends. Only the first request to leave is passed on. Where the queue is
gone, a request gets what a closed board gives. -/
def receive (d : Desk α) (client : Nat) (r : Request α) : Desk α :=
  if r.isClose && d.stopping then d
  else if d.gone then (d.note (d.letter client r)).settle (d.letter client r)
  else { d.note (d.letter client r) with queue := d.queue ++ [d.letter client r] }

/-- The desk after something has happened. -/
def act (d : Desk α) : Act α → Desk α
  | .send client r => d.receive client r
  | .serve =>
    if d.board.isOpen then
      match d.queue with
      | [] => d
      | l :: queue => { d with queue }.settle l
    else d
  | .leave =>
    if d.board.isOpen then d else { d.queue.foldl settle d with queue := [], gone := true }

/-- The desk after all that has happened, in order. -/
def run (d : Desk α) (acts : List (Act α)) : Desk α := acts.foldl act d

/-- What was answered to a letter. -/
def answersTo (d : Desk α) (l : Letter α) : List (Receipt α) :=
  (d.answers.filter fun a => a.1.number = l.number).map Prod.snd

end Desk

/-! ## Answers in order -/

/-- The answers to letters that are taken out one after the other. -/
def Board.replies (b : Board α) : List (Letter α) → List (Letter α × Receipt α)
  | [] => []
  | l :: ls => ((b.turn l.request).1.map fun o => (l, o)).toList ++ (b.turn l.request).2.replies ls

namespace Board

theorem replies_append (b : Board α) (ls ls' : List (Letter α)) :
    b.replies (ls ++ ls') = b.replies ls ++ (b.after (ls.map (·.request))).replies ls' := by
  induction ls generalizing b with
  | nil => rfl
  | cons l ls ih =>
    rw [List.cons_append, replies, replies, ih, List.append_assoc]
    rfl

/-- Only letters are answered. -/
theorem mem_of_mem_replies {b : Board α} {ls : List (Letter α)} {a : Letter α × Receipt α}
    (h : a ∈ b.replies ls) : a.1 ∈ ls := by
  induction ls generalizing b with
  | nil => simp [replies] at h
  | cons l ls ih =>
    rw [replies, List.mem_append] at h
    rcases h with h | h
    · rw [Option.mem_toList, Option.map_eq_some_iff] at h
      obtain ⟨o, -, rfl⟩ := h
      exact List.mem_cons_self
    · exact List.mem_cons_of_mem l (ih h)

theorem filter_replies_eq_nil {b : Board α} {ls : List (Letter α)} {n : Nat}
    (h : ∀ l ∈ ls, l.number ≠ n) : ((b.replies ls).filter fun a => a.1.number = n) = [] := by
  rw [List.filter_eq_nil_iff]
  intro a ha
  simpa using h a.1 (mem_of_mem_replies ha)

end Board

/-! ## What holds at every moment -/

namespace Desk

/-- The letters taken out so far have led the board to where it is, and have been answered. -/
structure Settled (d : Desk α) (taken : List (Letter α)) : Prop where
  board : d.board = Board.empty.after (taken.map (·.request))
  answers : d.answers = Board.empty.replies taken

/-- What holds at every moment. -/
structure Orderly (d : Desk α) : Prop where
  /-- What was sent first is taken out first. -/
  taken : ∃ taken, d.sent = taken ++ d.queue ∧ d.Settled taken
  numbered : d.sent.map (·.number) = List.range d.sent.length
  stopping : d.stopping = true ↔ .close ∈ d.sent.map (·.request)
  gone : d.gone = true → d.queue = []

variable {d d' : Desk α} {taken : List (Letter α)}

theorem Settled.settle (h : d.Settled taken) (l : Letter α) :
    (d.settle l).Settled (taken ++ [l]) := by
  constructor
  · rw [List.map_append, List.map_singleton, Board.after_snoc, ← h.board]
    rfl
  · rw [Board.replies_append, ← h.board, ← h.answers]
    simp [Desk.settle, Board.replies]

theorem Settled.settle_all (h : d.Settled taken) (ls : List (Letter α)) :
    (ls.foldl Desk.settle d).Settled (taken ++ ls) := by
  induction ls generalizing d taken with
  | nil => simpa using h
  | cons l ls ih => simpa using ih (h.settle l)

theorem settle_all_fields (d : Desk α) (ls : List (Letter α)) :
    (ls.foldl settle d).sent = d.sent ∧ (ls.foldl settle d).stopping = d.stopping := by
  induction ls generalizing d with
  | nil => exact ⟨rfl, rfl⟩
  | cons l ls ih => exact ih (d.settle l)

theorem orderly_fresh : (fresh : Desk α).Orderly where
  taken := ⟨[], rfl, rfl, rfl⟩
  numbered := rfl
  stopping := by simp [fresh]
  gone _ := rfl

theorem Orderly.receive (h : d.Orderly) (client : Nat) (r : Request α) :
    (d.receive client r).Orderly := by
  unfold Desk.receive
  by_cases hagain : (r.isClose && d.stopping) = true
  · rwa [if_pos hagain]
  rw [if_neg hagain]
  obtain ⟨taken, hsent, hset⟩ := h.taken
  generalize hl : d.letter client r = l
  -- what is noted does not depend on whether the queue is still there
  have hnumbered : (d.note l).sent.map (·.number) = List.range (d.note l).sent.length := by
    rw [note, List.map_append, h.numbered, List.length_append, List.length_singleton,
      List.range_succ, ← hl]
    rfl
  have hstopping : (d.note l).stopping = true ↔ .close ∈ (d.note l).sent.map (·.request) := by
    rw [note, Bool.or_eq_true, h.stopping, List.map_append, List.mem_append]
    cases hr : l.request <;> simp [Request.isClose, hr]
  have hset' : (d.note l).Settled taken := ⟨hset.board, hset.answers⟩
  by_cases hgone : d.gone = true
  · rw [if_pos hgone]
    refine ⟨⟨taken ++ [l], ?_, hset'.settle l⟩, hnumbered, hstopping, h.gone⟩
    show d.sent ++ [l] = taken ++ [l] ++ d.queue
    rw [hsent, h.gone hgone, List.append_nil, List.append_nil]
  · rw [if_neg hgone]
    have hstays : d.gone = true → d.queue ++ [l] = [] := fun hg => absurd hg hgone
    refine ⟨⟨taken, ?_, hset'.board, hset'.answers⟩, hnumbered, hstopping, hstays⟩
    show d.sent ++ [l] = taken ++ (d.queue ++ [l])
    rw [hsent, List.append_assoc]

theorem Orderly.serve (h : d.Orderly) : (d.act .serve).Orderly := by
  unfold act
  dsimp only
  by_cases hopen : d.board.isOpen = true
  · rw [if_pos hopen]
    split
    · exact h
    · rename_i l queue hqueue
      obtain ⟨taken, hsent, hset⟩ := h.taken
      refine ⟨⟨taken ++ [l], ?_, ?_⟩, h.numbered, h.stopping, fun hg => ?_⟩
      · show d.sent = _ ++ queue
        rw [hsent, hqueue, List.append_assoc, List.singleton_append]
      · exact Settled.settle (d := { d with queue }) ⟨hset.board, hset.answers⟩ l
      · simp [h.gone hg] at hqueue
  · rwa [if_neg hopen]

theorem Orderly.leave (h : d.Orderly) : (d.act .leave).Orderly := by
  unfold act
  dsimp only
  by_cases hopen : d.board.isOpen = true
  · rwa [if_pos hopen]
  · rw [if_neg hopen]
    obtain ⟨taken, hsent, hset⟩ := h.taken
    obtain ⟨hsent', hstopping'⟩ := settle_all_fields d d.queue
    have hset' := hset.settle_all d.queue
    refine ⟨⟨d.sent, ?_, ?_, ?_⟩, ?_, ?_, fun _ => rfl⟩
    · show (d.queue.foldl settle d).sent = _ ++ []
      rw [hsent', List.append_nil]
    · rw [hsent]
      exact hset'.board
    · rw [hsent]
      exact hset'.answers
    · show (d.queue.foldl settle d).sent.map _ = List.range (d.queue.foldl settle d).sent.length
      rw [hsent']
      exact h.numbered
    · show (d.queue.foldl settle d).stopping = true ↔
        .close ∈ (d.queue.foldl settle d).sent.map (·.request)
      rw [hsent', hstopping']
      exact h.stopping

/-- One step keeps order. -/
theorem Orderly.act (h : d.Orderly) (a : Act α) : (d.act a).Orderly := by
  cases a with
  | send client r => exact h.receive client r
  | serve => exact h.serve
  | leave => exact h.leave

/-- Any number of steps keeps order. -/
theorem Orderly.run (h : d.Orderly) (acts : List (Act α)) : (d.run acts).Orderly := by
  induction acts generalizing d with
  | nil => exact h
  | cons a acts ih => exact ih (h.act a)

/-! ## Which letters there are -/

/-- A step loses nothing that was sent. -/
theorem prefix_act (d : Desk α) (a : Act α) : d.sent <+: (d.act a).sent := by
  cases a with
  | send client r =>
    show d.sent <+: (d.receive client r).sent
    unfold receive
    split
    · exact List.prefix_refl _
    · split <;> exact List.prefix_append ..
  | serve =>
    unfold act
    dsimp only
    split
    · split <;> exact List.prefix_refl _
    · exact List.prefix_refl _
  | leave =>
    unfold act
    dsimp only
    split
    · exact List.prefix_refl _
    · exact (settle_all_fields d d.queue).1 ▸ List.prefix_refl _

theorem prefix_run (d : Desk α) (acts : List (Act α)) : d.sent <+: (d.run acts).sent := by
  induction acts generalizing d with
  | nil => exact List.prefix_refl _
  | cons a acts ih => exact (d.prefix_act a).trans (ih (d.act a))

theorem run_append (d : Desk α) (acts acts' : List (Act α)) :
    d.run (acts ++ acts') = (d.run acts).run acts' := List.foldl_append ..

theorem sent_receive {client : Nat} {r : Request α} (h : (r.isClose && d.stopping) = false) :
    (d.receive client r).sent = d.sent ++ [d.letter client r] := by
  unfold receive
  rw [if_neg (by simp [h])]
  split <;> rfl

/-- A request stands where it was sent. -/
theorem sent_of_send {client : Nat} {r : Request α} (hr : (r.isClose && d.stopping) = false)
    (late : List (Act α)) :
    ∃ later, (d.run (.send client r :: late)).sent = d.sent ++ d.letter client r :: later := by
  obtain ⟨later, hlater⟩ := prefix_run (d.receive client r) late
  rw [sent_receive hr, List.append_assoc, List.singleton_append] at hlater
  exact ⟨later, hlater.symm⟩

/-- Only who asks to leave makes the worker leave. -/
theorem stopping_act (d : Desk α) (a : Act α) :
    (d.act a).stopping = true ↔ d.stopping = true ∨ ∃ client, a = .send client .close := by
  cases a with
  | send client r =>
    show (d.receive client r).stopping = true ↔ _
    have hnote : (d.note (d.letter client r)).stopping = (d.stopping || r.isClose) := rfl
    have hr : (∃ c, Act.send client r = .send c .close) ↔ r.isClose = true := by
      cases r <;> simp [Request.isClose]
    rw [hr, receive]
    split
    · simp_all
    · split
      · rw [← Bool.or_eq_true, ← hnote]
        rfl
      · rw [← Bool.or_eq_true, ← hnote]
  | serve =>
    have h : (d.act .serve).stopping = d.stopping := by
      unfold act
      dsimp only
      split
      · split <;> rfl
      · rfl
    simp [h]
  | leave =>
    have h : (d.act .leave).stopping = d.stopping := by
      unfold act
      dsimp only
      split
      · rfl
      · exact (settle_all_fields d d.queue).2
    simp [h]

theorem stopping_run (d : Desk α) (acts : List (Act α)) :
    (d.run acts).stopping = true ↔ d.stopping = true ∨ ∃ client, .send client .close ∈ acts := by
  induction acts generalizing d with
  | nil => simp [run]
  | cons a acts ih =>
    show ((d.act a).run acts).stopping = true ↔ _
    rw [ih, stopping_act, or_assoc]
    simp only [List.mem_cons, eq_comm (a := a), exists_or]

/-! ## What is answered -/

/-- Numbers tell letters apart. -/
theorem Orderly.number_ne (h : d.Orderly) {before later : List (Letter α)} {l : Letter α}
    (hsent : d.sent = before ++ l :: later) :
    (∀ l' ∈ before, l'.number ≠ l.number) ∧ ∀ l' ∈ later, l'.number ≠ l.number := by
  have hnodup : (d.sent.map (·.number)).Nodup := h.numbered ▸ List.nodup_range
  rw [hsent, List.map_append, List.map_cons, List.nodup_append, List.nodup_cons] at hnodup
  obtain ⟨-, ⟨hlater, -⟩, hbefore⟩ := hnodup
  constructor
  · intro l' hl'
    exact hbefore _ (List.mem_map_of_mem hl') _ List.mem_cons_self
  · intro l' hl' heq
    exact hlater (heq ▸ List.mem_map_of_mem hl')

/-- A letter that still waits has no answer. -/
theorem Orderly.answersTo_waiting (h : d.Orderly) {l : Letter α} (hl : l ∈ d.queue) :
    d.answersTo l = [] := by
  obtain ⟨taken, hsent, hset⟩ := h.taken
  obtain ⟨front, back, hqueue⟩ := List.append_of_mem hl
  rw [hqueue, ← List.append_assoc] at hsent
  have hne := (h.number_ne hsent).1
  rw [answersTo, hset.answers, Board.filter_replies_eq_nil]
  · rfl
  · intro l' hl'
    exact hne l' (List.mem_append_left front hl')

/-- A letter that was taken out has what the board gave for it, after the letters before it. -/
theorem Orderly.answersTo_taken (h : d.Orderly) {before later : List (Letter α)} {l : Letter α}
    (hsent : d.sent = before ++ l :: later) (hl : l ∉ d.queue) :
    d.answersTo l =
      ((Board.empty.after (before.map (·.request))).turn l.request).1.toList := by
  obtain ⟨taken, htaken, hset⟩ := h.taken
  obtain ⟨rest, rfl⟩ : ∃ rest, taken = before ++ l :: rest := by
    rw [htaken, List.append_eq_append_iff] at hsent
    rcases hsent with ⟨front, rfl, hqueue⟩ | ⟨back, rfl, hback⟩
    · exact absurd (hqueue ▸ List.mem_append_right front List.mem_cons_self) hl
    · cases back with
      | nil =>
        rw [List.nil_append] at hback
        exact absurd (hback ▸ List.mem_cons_self) hl
      | cons l' back =>
        obtain ⟨rfl, -⟩ := List.cons.inj hback
        exact ⟨back, rfl⟩
  obtain ⟨hbefore, hlater⟩ := h.number_ne hsent
  have hrest : ∀ l' ∈ rest, l'.number ≠ l.number := by
    intro l' hl'
    rw [htaken, List.append_assoc, List.append_cancel_left_eq, List.cons_append,
      List.cons.injEq] at hsent
    exact hlater l' (hsent.2 ▸ List.mem_append_left d.queue hl')
  rw [answersTo, hset.answers, Board.replies_append, Board.replies, List.filter_append,
    List.filter_append, Board.filter_replies_eq_nil hbefore, Board.filter_replies_eq_nil hrest]
  cases ((Board.empty.after (before.map (·.request))).turn l.request).1 <;> simp

/-! ## Nobody waits for ever -/

/-- While the board is open the worker takes out one letter at a time. -/
theorem queue_serve (hopen : d.board.isOpen = true) : (d.act .serve).queue = d.queue.tail := by
  unfold act
  dsimp only
  rw [if_pos hopen]
  cases hqueue : d.queue with
  | nil => exact hqueue
  | cons l queue => rfl

theorem queue_leave (hclosed : d.board.isOpen = false) : (d.act .leave).queue = [] := by
  unfold act
  dsimp only
  rw [if_neg (by simp [hclosed])]

/-- A worker who goes on as long as he can empties the queue. -/
theorem queue_drained {n : Nat} (h : d.board.isOpen = false ∨ d.queue.length ≤ n) :
    (d.run (List.replicate n .serve ++ [.leave])).queue = [] := by
  induction n generalizing d with
  | zero =>
    show (d.act .leave).queue = []
    cases hopen : d.board.isOpen with
    | false => exact queue_leave hopen
    | true =>
      rw [act, if_pos hopen]
      simpa [hopen] using h
  | succ n ih =>
    show ((d.act .serve).run (List.replicate n .serve ++ [.leave])).queue = []
    cases hopen : d.board.isOpen with
    | false =>
      have hsame : d.act .serve = d := by rw [act, if_neg (by simp [hopen])]
      rw [hsame]
      exact ih (.inl hopen)
    | true =>
      refine ih (.inr ?_)
      rw [queue_serve hopen, List.length_tail]
      simp only [hopen, Bool.true_eq_false, false_or] at h
      omega

end Desk

/-! ## All interleavings -/

/-- What it means that the requests of all clients are worked off as one history. -/
structure Serial (acts : List (Act α)) : Prop where
  /-- What waits is what was sent last. -/
  first_come : ∃ taken, (Desk.fresh.run acts).sent = taken ++ (Desk.fresh.run acts).queue
  /-- A request stands in the history behind those that were sent before it. -/
  kept : ∀ early client r late, acts = early ++ .send client r :: late → r ≠ .close →
    ∃ later, (Desk.fresh.run acts).sent =
      (Desk.fresh.run early).sent ++ (Desk.fresh.run early).letter client r :: later
  /-- Who asks to leave is in the history. -/
  stopped : .close ∈ (Desk.fresh.run acts).sent.map (·.request) ↔
    ∃ client, .send client .close ∈ acts
  /-- Who waits has no answer. -/
  waiting : ∀ l ∈ (Desk.fresh.run acts).queue, (Desk.fresh.run acts).answersTo l = []
  /-- Who does not wait any more has the one answer that is owed after all that was sent before. -/
  answered : ∀ before l later, (Desk.fresh.run acts).sent = before ++ l :: later →
    l ∉ (Desk.fresh.run acts).queue →
    ∃ o, Owed (before.map (·.request)) l.request o ∧
      (Desk.fresh.run acts).answersTo l = o.toList
  /-- A simulation gets the same answer in any other history with the same requests that concern
  it. -/
  apart : ∀ acts' before l later before' l' later' sim,
    (Desk.fresh.run acts).sent = before ++ l :: later →
    (Desk.fresh.run acts').sent = before' ++ l' :: later' →
    l ∉ (Desk.fresh.run acts).queue → l' ∉ (Desk.fresh.run acts').queue →
    l.request = l'.request → l.request.sim? = some sim →
    (before.map (·.request)).filter (Request.concerns sim) =
      (before'.map (·.request)).filter (Request.concerns sim) →
    (Desk.fresh.run acts).answersTo l = (Desk.fresh.run acts').answersTo l'
  /-- Asking to leave again changes nothing. -/
  stop_again : ∀ client client', .send client .close ∈ acts →
    (Desk.fresh.run acts).act (.send client' .close) = Desk.fresh.run acts
  /-- Nobody has to wait for ever. -/
  drained : ∃ n, (Desk.fresh.run (acts ++ (List.replicate n .serve ++ [.leave]))).queue = []

namespace Desk

variable {acts acts' : List (Act α)} {before later before' later' : List (Letter α)}
  {l l' : Letter α}

/-- Who does not wait any more has the one answer that is owed. -/
theorem answersTo_owed (hsent : (fresh.run acts).sent = before ++ l :: later)
    (hl : l ∉ (fresh.run acts).queue) :
    ∃ o, Owed (before.map (·.request)) l.request o ∧ (fresh.run acts).answersTo l = o.toList :=
  ⟨_, owed_turn _ _, (orderly_fresh.run acts).answersTo_taken hsent hl⟩

/-- What others ask for makes no difference to a simulation. -/
theorem answersTo_apart {sim : SimId} (hsent : (fresh.run acts).sent = before ++ l :: later)
    (hsent' : (fresh.run acts').sent = before' ++ l' :: later')
    (hl : l ∉ (fresh.run acts).queue) (hl' : l' ∉ (fresh.run acts').queue)
    (hrequest : l.request = l'.request) (hsim : l.request.sim? = some sim)
    (hsame : (before.map (·.request)).filter (Request.concerns sim) =
      (before'.map (·.request)).filter (Request.concerns sim)) :
    (fresh.run acts).answersTo l = (fresh.run acts').answersTo l' := by
  obtain ⟨o, howed, hans⟩ := answersTo_owed hsent hl
  obtain ⟨o', howed', hans'⟩ := answersTo_owed hsent' hl'
  have ho := owed_filter_concerns hsim howed
  have ho' := owed_filter_concerns (hrequest ▸ hsim) howed'
  rw [hsame, hrequest] at ho
  rw [hans, hans', ho.unique ho']

theorem act_close_of_stopping {d : Desk α} (h : d.stopping = true) (client : Nat) :
    d.act (.send client .close) = d := by
  show d.receive client .close = d
  rw [receive, if_pos (by simp [h, Request.isClose])]

end Desk

/-- **However the requests of any number of clients are mixed, they are worked off as one
history.** -/
theorem Desk.serial_run (acts : List (Act α)) : Serial acts := by
  have horder : (Desk.fresh.run acts : Desk α).Orderly := orderly_fresh.run acts
  constructor
  case first_come =>
    obtain ⟨taken, hsent, -⟩ := horder.taken
    exact ⟨taken, hsent⟩
  case kept =>
    rintro early client r late rfl hr
    rw [run_append]
    refine sent_of_send ?_ late
    cases r <;> simp_all [Request.isClose]
  case stopped =>
    rw [← horder.stopping, stopping_run]
    simp [fresh]
  case waiting => exact fun l hl => horder.answersTo_waiting hl
  case answered => exact fun before l later hsent hl => answersTo_owed hsent hl
  case apart =>
    intro acts' before l later before' l' later' sim hsent hsent' hl hl' hrequest hsim hsame
    exact answersTo_apart hsent hsent' hl hl' hrequest hsim hsame
  case stop_again =>
    intro client client' hstop
    exact act_close_of_stopping ((stopping_run _ acts).mpr (.inr ⟨client, hstop⟩)) client'
  case drained =>
    refine ⟨(Desk.fresh.run acts).queue.length, ?_⟩
    rw [run_append]
    exact queue_drained (.inr (Nat.le_refl _))

/-- Two simulations, of which the first takes back what it set, and a request caught behind the one
to leave. -/
example :
    (Desk.fresh.run [
      .send 0 (.set 0 "rate" 5), .send 1 (.get 1 ∅ "rate"), .send 0 (.get 0 ∅ "rate"), .serve,
      .send 0 (.forget 0), .serve, .send 1 (.get 0 ∅ "rate"), .send 2 .close, .serve, .serve,
      .serve, .send 0 (.set 1 "rate" 7), .send 2 .close, .serve, .leave]).answers.map
        (fun a => (a.1.number, a.2)) =
    [(0, .done), (1, .value none), (2, .value (some 5)), (4, .value none),
      (6, .fault (.stopped "rate"))] := by
  decide +kernel

end StockFlow
