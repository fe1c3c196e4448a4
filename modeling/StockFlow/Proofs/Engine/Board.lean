import StockFlow.Engine.Board

/-!
# What questions do to a board

* `Board.Spent` — a board on which nothing was written since, though questions were asked
* `Board.get_eq`, `Board.set_eq` — what a question and a setting give
* `Board.lookup_pin` — a setting is answered from then on, and nothing else changes
-/

namespace StockFlow.Board

variable {α : Type} {b b' b'' : Board α}

/-! ## Open boards -/

theorem isOpen_of_remaining_none (h : b.remaining = none) : b.isOpen = true := by
  simp [isOpen, h]

theorem isOpen_eq_false_iff : b.isOpen = false ↔ b.remaining = some 0 := by
  simp [isOpen]

/-! ## Questions -/

/-- Some requests were spent on a board, none of which wrote on it. -/
def Spent (b b' : Board α) : Prop :=
  ∃ k, b' = { b with remaining := b.remaining.map fun n => n - k }

theorem Spent.refl (b : Board α) : Spent b b := ⟨0, by cases b; simp⟩

theorem Spent.tick (b : Board α) : Spent b b.tick := ⟨1, rfl⟩

theorem Spent.trans (h : Spent b b') (h' : Spent b' b'') : Spent b b'' := by
  obtain ⟨k, rfl⟩ := h
  obtain ⟨l, rfl⟩ := h'
  refine ⟨k + l, ?_⟩
  simp only [Option.map_map]
  congr 2
  exact funext fun n => Nat.sub_sub n k l

theorem Spent.lookup_eq (h : Spent b b') (sim : SimId) (defaults : Std.TreeMap String α)
    (name : String) : b'.lookup sim defaults name = b.lookup sim defaults name := by
  obtain ⟨k, rfl⟩ := h
  rfl

/-- Questions do not change a board that stays open for ever. -/
theorem Spent.eq_of_running (h : Spent b b') (hb : b.remaining = none) : b' = b := by
  obtain ⟨k, rfl⟩ := h
  rw [hb, Option.map_none, ← hb]

/-- Questions do not change a closed board. -/
theorem Spent.eq_of_closed (h : Spent b b') (hb : b.isOpen = false) : b' = b := by
  obtain ⟨k, rfl⟩ := h
  rw [isOpen_eq_false_iff] at hb
  rw [hb, Option.map_some, Nat.zero_sub, ← hb]

theorem Spent.isOpen_eq_false (h : Spent b b') (hb : b.isOpen = false) : b'.isOpen = false := by
  rw [h.eq_of_closed hb, hb]

/-! ## What the requests of a simulation give -/

theorem get_eq (b : Board α) (sim : SimId) (defaults : Std.TreeMap String α) (name : String) :
    b.get sim defaults name =
      if b.isOpen then (.ok (b.lookup sim defaults name), b.tick)
      else (.error (.stopped name), b) := by
  unfold get serve
  cases hopen : b.isOpen <;> rfl

theorem set_eq (b : Board α) (sim : SimId) (name : String) (x : α) :
    b.set sim name x =
      if b.isOpen then (.ok (), b.tick.pin sim name x) else (.error (.stopped name), b) := by
  unfold set serve
  cases hopen : b.isOpen <;> rfl

theorem tick_of_running (hb : b.remaining = none) : b.tick = b := (Spent.tick b).eq_of_running hb

theorem get_of_running (hb : b.remaining = none) (sim : SimId) (defaults : Std.TreeMap String α)
    (name : String) : b.get sim defaults name = (.ok (b.lookup sim defaults name), b) := by
  rw [get_eq, if_pos (isOpen_of_remaining_none hb), tick_of_running hb]

theorem set_of_running (hb : b.remaining = none) (sim : SimId) (name : String) (x : α) :
    b.set sim name x = (.ok (), b.pin sim name x) := by
  rw [set_eq, if_pos (isOpen_of_remaining_none hb), tick_of_running hb]

theorem forget_of_running (hb : b.remaining = none) (sim : SimId) : b.forget sim = b.unpin sim := by
  rw [forget, serve, if_pos (isOpen_of_remaining_none hb), tick_of_running hb]
  rfl

/-! ## What is pinned -/

theorem pinned?_pin (b : Board α) (sim sim' : SimId) (name name' : String) (x : α) :
    (b.pin sim name x).pinned? sim' name' =
      if sim = sim' ∧ name = name' then some x else b.pinned? sim' name' := by
  unfold pinned? pin
  simp only [Std.TreeMap.getElem?_insert, Nat.compare_eq_eq]
  by_cases hsim : sim = sim'
  · subst hsim
    simp only [↓reduceIte, Option.bind_some, Std.TreeMap.getElem?_insert,
      Std.LawfulEqCmp.compare_eq_iff_eq, true_and, Std.TreeMap.getD_eq_getD_getElem?]
    by_cases hname : name = name'
    · simp [hname]
    · simp only [hname, ↓reduceIte]
      cases b.pinned[sim]? with
      | none => simp
      | some values => rfl
  · simp [hsim]

theorem pinned?_unpin (b : Board α) (sim sim' : SimId) (name : String) :
    (b.unpin sim).pinned? sim' name = if sim = sim' then none else b.pinned? sim' name := by
  unfold pinned? unpin
  simp only [Std.TreeMap.getElem?_erase, Nat.compare_eq_eq]
  by_cases hsim : sim = sim'
  · rw [if_pos hsim, if_pos hsim, Option.bind_none]
  · rw [if_neg hsim, if_neg hsim]

/-- **A setting is answered from then on,** and nothing else changes. -/
theorem lookup_pin (b : Board α) (sim sim' : SimId) (defaults : Std.TreeMap String α)
    (name name' : String) (x : α) :
    (b.pin sim name x).lookup sim' defaults name' =
      if sim = sim' ∧ name = name' then some x else b.lookup sim' defaults name' := by
  unfold lookup
  rw [pinned?_pin]
  by_cases h : sim = sim' ∧ name = name'
  · simp [h]
  · simp [h]

end StockFlow.Board
