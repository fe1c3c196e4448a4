import Mathlib.Data.List.Induction
import StockFlow.Proofs.Engine.Board

/-!
# What a request is owed

The answer to a request depends on the requests before it and on nothing else: on what was set last
and on whether it was taken down since, for this simulation alone, and on whether the board was
closed.

* `Board.turn`, `Board.after` — what a request gives, and the board after requests
* `LastSet`, `Owed` — what a request has to be answered after others
* `owed_turn`, `Owed.unique` — the board gives what is owed, and nothing else is owed
* `owed_filter_concerns` — requests of other simulations do not count
-/

namespace StockFlow

variable {α : Type}

/-- What comes back to someone who asked. -/
inductive Receipt (α : Type) where
  | value (x : Option α)
  | done
  | fault (f : RunFault)
  deriving DecidableEq

/-- What a request gives, if anything is sent back for it, and the board after it. -/
def Board.turn (b : Board α) : Request α → Option (Receipt α) × Board α
  | .get sim defaults name =>
    match b.get sim defaults name with
    | (.ok x, b) => (some (.value x), b)
    | (.error f, b) => (some (.fault f), b)
  | .set sim name x =>
    match b.set sim name x with
    | (.ok _, b) => (some .done, b)
    | (.error f, b) => (some (.fault f), b)
  | .forget sim => (none, b.forget sim)
  | .close => (none, (b.serve .close).2)

/-! ## What is owed -/

namespace Request

/-- The simulation that asks. -/
def sim? : Request α → Option SimId
  | get sim .. => some sim
  | set sim .. => some sim
  | forget sim => some sim
  | close => none

/-- Whether what a simulation is owed later can depend on a request. -/
def concerns (sim : SimId) : Request α → Bool
  | get .. => false
  | set sim' .. => sim' = sim
  | forget sim' => sim' = sim
  | close => true

end Request

/-- The last setting of a variable of a simulation, if nothing that the simulation has pinned was
taken down since. -/
def LastSet (before : List (Request α)) (sim : SimId) (name : String) (x : α) : Prop :=
  ∃ early late, before = early ++ .set sim name x :: late ∧
    (∀ y, .set sim name y ∉ late) ∧ .forget sim ∉ late

/-- What a request has to be answered after others. -/
inductive Owed (before : List (Request α)) : Request α → Option (Receipt α) → Prop where
  | pinned {sim defaults name x} (open_ : .close ∉ before) (last : LastSet before sim name x) :
    Owed before (.get sim defaults name) (some (.value (some x)))
  | default {sim defaults name} (open_ : .close ∉ before)
    (unset : ∀ x, ¬ LastSet before sim name x) :
    Owed before (.get sim defaults name) (some (.value defaults[name]?))
  | set {sim name x} (open_ : .close ∉ before) : Owed before (.set sim name x) (some .done)
  | getStopped {sim defaults name} (closed : .close ∈ before) :
    Owed before (.get sim defaults name) (some (.fault (.stopped name)))
  | setStopped {sim name x} (closed : .close ∈ before) :
    Owed before (.set sim name x) (some (.fault (.stopped name)))
  | forget {sim} : Owed before (.forget sim) none
  | close : Owed before .close none

/-! ## One request and many -/

namespace Board

variable {b : Board α}

/-- What a board gives that stays open for ever. -/
theorem turn_running (hb : b.remaining = none) (r : Request α) :
    b.turn r = match r with
      | .get sim defaults name => (some (.value (b.lookup sim defaults name)), b)
      | .set sim name x => (some .done, b.pin sim name x)
      | .forget sim => (none, b.unpin sim)
      | .close => (none, b.close) := by
  cases r with
  | get sim defaults name => simp only [turn, get_of_running hb]
  | set sim name x => simp only [turn, set_of_running hb]
  | forget sim => simp only [turn, forget_of_running hb]
  | close =>
    rw [turn, serve, if_pos (isOpen_of_remaining_none hb), tick_of_running hb]
    rfl

/-- What a closed board gives. -/
theorem turn_closed (hb : b.isOpen = false) (r : Request α) :
    b.turn r = match r with
      | .get _ _ name => (some (.fault (.stopped name)), b)
      | .set _ name _ => (some (.fault (.stopped name)), b)
      | .forget _ => (none, b)
      | .close => (none, b) := by
  cases r with
  | get sim defaults name => simp [turn, get_eq, hb]
  | set sim name x => simp [turn, set_eq, hb]
  | forget sim => simp [turn, Board.forget, serve, hb]
  | close => simp [turn, serve, hb]

/-- A board after requests. -/
def after (b : Board α) (rs : List (Request α)) : Board α := rs.foldl (fun b r => (b.turn r).2) b

theorem after_append (b : Board α) (rs rs' : List (Request α)) :
    b.after (rs ++ rs') = (b.after rs).after rs' := List.foldl_append ..

theorem after_snoc (b : Board α) (rs : List (Request α)) (r : Request α) :
    b.after (rs ++ [r]) = ((b.after rs).turn r).2 := after_append b rs [r]

theorem after_closed (hb : b.isOpen = false) (rs : List (Request α)) : b.after rs = b := by
  induction rs with
  | nil => rfl
  | cons r rs ih =>
    have hr : (b.turn r).2 = b := by
      rw [turn_closed hb]
      cases r <;> rfl
    show (b.turn r).2.after rs = b
    rw [hr, ih]

/-- A board that nobody closes stays open. -/
theorem remaining_after {rs : List (Request α)} (h : .close ∉ rs) :
    ((Board.empty : Board α).after rs).remaining = none := by
  induction rs using List.reverseRecOn with
  | nil => rfl
  | append_singleton rs r ih =>
    rw [List.mem_append, not_or, List.mem_singleton] at h
    rw [after_snoc, turn_running (ih h.1)]
    cases r with
    | get sim defaults name => exact ih h.1
    | set sim name x => exact ih h.1
    | forget sim => exact ih h.1
    | close => exact absurd rfl h.2

/-- A board that was closed refuses everything. -/
theorem isOpen_after {rs : List (Request α)} (h : .close ∈ rs) :
    ((Board.empty : Board α).after rs).isOpen = false := by
  induction rs using List.reverseRecOn with
  | nil => simp at h
  | append_singleton rs r ih =>
    by_cases hrs : .close ∈ rs
    · rw [after_append, after_closed (ih hrs)]
      exact ih hrs
    · obtain rfl : Request.close = r := by simpa [hrs] using h
      rw [after_snoc, turn_running (remaining_after hrs)]
      rfl

end Board

/-! ## The last setting -/

theorem lastSet_snoc {rs : List (Request α)} {r : Request α} {sim : SimId} {name : String} {x : α} :
    LastSet (rs ++ [r]) sim name x ↔ r = .set sim name x ∨
      LastSet rs sim name x ∧ (∀ y, r ≠ .set sim name y) ∧ r ≠ .forget sim := by
  constructor
  · rintro ⟨early, late, heq, hset, hforget⟩
    rcases List.eq_nil_or_concat late with rfl | ⟨late, r', rfl⟩
    · obtain ⟨rfl, hr⟩ := List.append_inj' heq rfl
      exact .inl (List.singleton_inj.mp hr)
    · rw [List.concat_eq_append, ← List.cons_append, ← List.append_assoc] at heq
      obtain ⟨rfl, hr⟩ := List.append_inj' heq rfl
      obtain rfl := List.singleton_inj.mp hr
      simp only [List.concat_eq_append, List.mem_append, List.mem_singleton, not_or] at hset hforget
      refine .inr ⟨⟨early, late, rfl, fun y => (hset y).1, hforget.1⟩, fun y h => ?_, fun h => ?_⟩
      · exact (hset y).2 h.symm
      · exact hforget.2 h.symm
  · rintro (rfl | ⟨⟨early, late, rfl, hset, hforget⟩, hr, hr'⟩)
    · exact ⟨rs, [], rfl, by simp, by simp⟩
    · refine ⟨early, late ++ [r], by simp, fun y => ?_, ?_⟩
      · rw [List.mem_append, List.mem_singleton, not_or]
        exact ⟨hset y, fun h => hr y h.symm⟩
      · rw [List.mem_append, List.mem_singleton, not_or]
        exact ⟨hforget, fun h => hr' h.symm⟩

/-- What stands on the board is what was set last. -/
theorem Board.pinned?_after {rs : List (Request α)} (h : .close ∉ rs) (sim : SimId) (name : String)
    (x : α) : ((Board.empty : Board α).after rs).pinned? sim name = some x ↔
      LastSet rs sim name x := by
  induction rs using List.reverseRecOn with
  | nil => simp [LastSet, after, pinned?, Board.empty]
  | append_singleton rs r ih =>
    rw [List.mem_append, not_or, List.mem_singleton] at h
    rw [after_snoc, turn_running (remaining_after h.1), lastSet_snoc]
    specialize ih h.1
    cases r with
    | get sim' defaults name' => simpa using ih
    | set sim' name' y =>
      rw [pinned?_pin]
      by_cases heq : sim' = sim ∧ name' = name
      · obtain ⟨rfl, rfl⟩ := heq
        simp
      · rw [if_neg heq, ih]
        grind
    | forget sim' =>
      rw [pinned?_unpin]
      by_cases heq : sim' = sim
      · simp [heq]
      · rw [if_neg heq, ih]
        simp [heq]
    | close => exact absurd rfl h.2

/-! ## What is owed is what is given -/

/-- After any requests the board answers a request what it is owed. -/
theorem owed_turn (rs : List (Request α)) (r : Request α) :
    Owed rs r (((Board.empty : Board α).after rs).turn r).1 := by
  by_cases hclose : .close ∈ rs
  · rw [Board.turn_closed (Board.isOpen_after hclose)]
    cases r with
    | get sim defaults name => exact .getStopped hclose
    | set sim name x => exact .setStopped hclose
    | forget sim => exact .forget
    | close => exact .close
  · rw [Board.turn_running (Board.remaining_after hclose)]
    cases r with
    | get sim defaults name =>
      show Owed rs _ (some (.value (Board.lookup ..)))
      unfold Board.lookup
      have hlast := Board.pinned?_after hclose sim name
      cases hpin : ((Board.empty : Board α).after rs).pinned? sim name with
      | none =>
        refine .default hclose fun x hx => ?_
        rw [← hlast, hpin] at hx
        simp at hx
      | some x => exact .pinned hclose ((hlast x).mp hpin)
    | set sim name x => exact .set hclose
    | forget sim => exact .forget
    | close => exact .close

theorem LastSet.unique {rs : List (Request α)} {sim : SimId} {name : String} {x y : α}
    (hx : LastSet rs sim name x) (hy : LastSet rs sim name y) : x = y := by
  induction rs using List.reverseRecOn with
  | nil => simp [LastSet] at hx
  | append_singleton rs r ih =>
    rw [lastSet_snoc] at hx hy
    rcases hx with rfl | ⟨hx, hset, -⟩
    · rcases hy with hy | ⟨-, hset, -⟩
      · simpa using hy
      · exact absurd rfl (hset x)
    · rcases hy with rfl | ⟨hy, -, -⟩
      · exact absurd rfl (hset y)
      · exact ih hx hy

/-- A request is owed one thing only. -/
theorem Owed.unique {rs : List (Request α)} {r : Request α} {o o' : Option (Receipt α)}
    (h : Owed rs r o) (h' : Owed rs r o') : o = o' := by
  cases h with
  | pinned hopen hlast =>
    cases h' with
    | pinned _ hlast' => rw [hlast.unique hlast']
    | default _ hunset => exact absurd hlast (hunset _)
    | getStopped hclosed => exact absurd hclosed hopen
  | default hopen hunset =>
    cases h' with
    | pinned _ hlast => exact absurd hlast (hunset _)
    | default => rfl
    | getStopped hclosed => exact absurd hclosed hopen
  | set hopen =>
    cases h' with
    | set => rfl
    | setStopped hclosed => exact absurd hclosed hopen
  | getStopped hclosed =>
    cases h' with
    | pinned hopen => exact absurd hclosed hopen
    | default hopen => exact absurd hclosed hopen
    | getStopped => rfl
  | setStopped hclosed =>
    cases h' with
    | set hopen => exact absurd hclosed hopen
    | setStopped => rfl
  | forget => cases h'; rfl
  | close => cases h'; rfl

/-! ## Requests of other simulations -/

theorem lastSet_filter_concerns {rs : List (Request α)} {sim : SimId} {name : String} {x : α} :
    LastSet (rs.filter (Request.concerns sim)) sim name x ↔ LastSet rs sim name x := by
  induction rs using List.reverseRecOn with
  | nil => rfl
  | append_singleton rs r ih =>
    rw [List.filter_append, lastSet_snoc]
    cases hr : r.concerns sim with
    | true => rw [List.filter_cons_of_pos hr, List.filter_nil, lastSet_snoc, ih]
    | false =>
      have hset : ∀ y, r ≠ .set sim name y := by
        rintro y rfl
        simp [Request.concerns] at hr
      have hforget : r ≠ .forget sim := by
        rintro rfl
        simp [Request.concerns] at hr
      rw [List.filter_cons_of_neg (by simp [hr]), List.filter_nil, List.append_nil, ih]
      simp [hset, hforget]

theorem close_mem_filter_concerns {rs : List (Request α)} {sim : SimId} :
    .close ∈ rs.filter (Request.concerns sim) ↔ .close ∈ rs := by
  simp [Request.concerns]

/-- **What is owed to a simulation** does not depend on the requests of others, except on whether
the board was closed. -/
theorem owed_filter_concerns {rs : List (Request α)} {r : Request α} {o : Option (Receipt α)}
    {sim : SimId} (hr : r.sim? = some sim) (h : Owed rs r o) :
    Owed (rs.filter (Request.concerns sim)) r o := by
  cases h with
  | pinned hopen hlast =>
    obtain rfl : _ = sim := Option.some.inj hr
    exact .pinned (by rwa [close_mem_filter_concerns]) (lastSet_filter_concerns.mpr hlast)
  | default hopen hunset =>
    obtain rfl : _ = sim := Option.some.inj hr
    exact .default (by rwa [close_mem_filter_concerns]) fun x hx =>
      hunset x (lastSet_filter_concerns.mp hx)
  | set hopen => exact .set (by rwa [close_mem_filter_concerns])
  | getStopped hclosed => exact .getStopped (by rwa [close_mem_filter_concerns])
  | setStopped hclosed => exact .setStopped (by rwa [close_mem_filter_concerns])
  | forget => exact .forget
  | close => exact .close

end StockFlow
