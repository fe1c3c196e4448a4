import StockFlow.Proofs.Engine.History

/-!
# Simulations under another number

All that a simulation does with its number is to ask the board, and the board answers what is pinned
under that number. Under another number with the same pins on another board it does the same.

* `Board.SameFor` — two boards that answer two numbers the same
* `Sim.eval_renumbered`, `Sim.start_renumbered`, `Sim.advance_renumbered` — computing and stepping
* `Sim.runTo_renumbered`, `Sim.setValue_renumbered` — runs and settings
-/

namespace StockFlow

variable {α : Type}

/-! ## Boards -/

/-- Two boards that nobody closes, and the same values are pinned for `i` on the one and for `j` on
the other. -/
structure Board.SameFor (b : Board α) (i : SimId) (c : Board α) (j : SimId) : Prop where
  running : b.remaining = none
  running' : c.remaining = none
  pinned : ∀ name, b.pinned? i name = c.pinned? j name

namespace Board

variable {b c : Board α} {i j : SimId}

theorem SameFor.lookup (h : b.SameFor i c j) (defaults : Std.TreeMap String α) (name : String) :
    c.lookup j defaults name = b.lookup i defaults name := by
  unfold Board.lookup
  rw [h.pinned]

theorem SameFor.pin (h : b.SameFor i c j) (name : String) (x : α) :
    (b.pin i name x).SameFor i (c.pin j name x) j := by
  refine ⟨h.running, h.running', ?_⟩
  intro n
  rw [pinned?_pin, pinned?_pin, h.pinned]
  simp only [true_and]

end Board

/-! ## Simulations -/

/-- A simulation under another number. -/
def Sim.renumbered (s : Sim α) (i : SimId) : Sim α := { s with id := i }

/-- Where a simulation came to, under another number and with another board. -/
def Reached.renumbered (r : Reached α) (i : SimId) (c : Board α) : Reached α :=
  ⟨r.sim.renumbered i, c, r.fault⟩

theorem Reached.andThen_renumbered {r : Reached α} {next : Sim α → Board α → Reached α} {i : SimId}
    {c : Board α} (hnext : next (r.sim.renumbered i) c = (next r.sim r.board).renumbered i c) :
    (r.renumbered i c).andThen next = (r.andThen next).renumbered i c := by
  by_cases hok : r.fault = none
  · rw [andThen_of_ok hok, ← hnext]
    exact andThen_of_ok hok
  · rw [andThen_of_fault hok]
    exact andThen_of_fault hok

namespace Sim

variable [Scalar α] {s : Sim α} {b c : Board α} {i : SimId}

/-! ## Computing -/

/-- Computing a formula gives the same and leaves the boards as they are. -/
theorem eval_renumbered (h : b.SameFor s.id c i) (f : Formula α) :
    ∃ res, s.eval f b = (res, b) ∧ (s.renumbered i).eval f c = (res, c) := by
  induction f with
  | const _ | var _ | dt | pi => exact ⟨_, rfl, rfl⟩
  | default name =>
    simp only [eval, Board.get_of_running h.running, Board.get_of_running h.running']
    have hsame : c.lookup (s.renumbered i).id (s.renumbered i).model.defaults name =
        b.lookup s.id s.model.defaults name := h.lookup _ name
    rw [hsame]
    cases b.lookup s.id s.model.defaults name with
    | some x => exact ⟨_, rfl, rfl⟩
    | none => exact ⟨_, rfl, rfl⟩
  | negate x ih | apply1 _ x ih =>
    obtain ⟨res, he, he'⟩ := ih
    simp only [eval, he, he']
    cases res with
    | ok x => exact ⟨_, rfl, rfl⟩
    | error e => exact ⟨_, rfl, rfl⟩
  | lookup t x ih =>
    obtain ⟨res, he, he'⟩ := ih
    have hmodel : (s.renumbered i).model = s.model := rfl
    simp only [eval, he, he', hmodel]
    cases res with
    | error e => exact ⟨_, rfl, rfl⟩
    | ok x =>
      cases s.model.equations.tables[t]? with
      | some table => exact ⟨_, rfl, rfl⟩
      | none => exact ⟨_, rfl, rfl⟩
  | binary _ x y ihx ihy | apply2 _ x y ihx ihy =>
    obtain ⟨res, he, he'⟩ := ihx
    obtain ⟨res', hf, hf'⟩ := ihy
    simp only [eval, he, he']
    cases res with
    | error e => exact ⟨_, rfl, rfl⟩
    | ok x =>
      simp only [hf, hf']
      cases res' with
      | ok y => exact ⟨_, rfl, rfl⟩
      | error e => exact ⟨_, rfl, rfl⟩

theorem apply_renumbered (h : b.SameFor s.id c i) (rules : List (Rule α)) :
    (s.renumbered i).apply c rules = (s.apply b rules).renumbered i c := by
  induction rules generalizing s with
  | nil => rfl
  | cons r rules ih =>
    obtain ⟨res, he, he'⟩ := eval_renumbered h r.formula
    simp only [apply, he, he']
    cases res with
    | error e => rfl
    | ok x => exact ih (s := s.assign r.name x) h

theorem evalAll_renumbered (h : b.SameFor s.id c i) (found : Values α) (rules : List (Rule α)) :
    ∃ res, s.evalAll b found rules = (res, b) ∧
      (s.renumbered i).evalAll c found rules = (res, c) := by
  induction rules generalizing found with
  | nil => exact ⟨_, rfl, rfl⟩
  | cons r rules ih =>
    obtain ⟨res, he, he'⟩ := eval_renumbered h r.formula
    simp only [evalAll, he, he']
    cases res with
    | error e => exact ⟨_, rfl, rfl⟩
    | ok x => exact ih (found.insert r.name x)

/-! ## Stepping -/

theorem start_renumbered (h : b.SameFor s.id c i) :
    (s.renumbered i).start c = (s.start b).renumbered i c := by
  have hinit := apply_renumbered h s.model.equations.initials
  have hboard := (s.spent_apply b s.model.equations.initials).eq_of_running h.running
  have hid := (s.continues_apply b s.model.equations.initials).id
  unfold start
  refine (congrArg (fun r => (Reached.andThen r _).andThen _) hinit).trans ?_
  rw [Reached.andThen_renumbered]
  · exact Reached.andThen_renumbered rfl
  · rw [hboard]
    exact apply_renumbered (by rwa [hid]) _

theorem saveIfDue_renumbered (s : Sim α) (i : SimId) :
    (s.renumbered i).saveIfDue = s.saveIfDue.renumbered i := by
  unfold saveIfDue
  by_cases hdue : s.step % s.saveEvery = 0
  · rw [if_pos hdue]
    exact if_pos hdue
  · rw [if_neg hdue]
    exact if_neg hdue

theorem advance_renumbered (h : b.SameFor s.id c i) :
    (s.renumbered i).advance c = (s.advance b).renumbered i c := by
  obtain ⟨res, he, he'⟩ := evalAll_renumbered h ∅ s.model.equations.stocks
  cases res with
  | error e =>
    rw [advance_of_error he]
    exact advance_of_error he'
  | ok w =>
    rw [advance_of_ok he]
    refine (advance_of_ok he').trans ?_
    have hflows := apply_renumbered (s := s.moved w) h s.model.equations.flows
    refine (congrArg (fun r => Reached.andThen r _) hflows).trans ?_
    refine Reached.andThen_renumbered ?_
    rw [saveIfDue_renumbered]
    rfl

theorem stepTo_renumbered (h : b.SameFor s.id c i) (target : α) (fuel : Nat) :
    stepTo target fuel (s.renumbered i) c =
      (stepTo target fuel s b).map fun r => r.renumbered i c := by
  induction fuel generalizing s with
  | zero => rfl
  | succ fuel ih =>
    have hpass : ∀ t, (s.renumbered i).wouldPass t = s.wouldPass t := fun _ => rfl
    have hspec : (s.renumbered i).spec = s.spec := rfl
    simp only [stepTo, hpass, hspec, advance_renumbered h]
    by_cases hend : s.wouldPass s.spec.stop = true
    · simp only [hend, ↓reduceIte]
      rfl
    · by_cases htarget : s.wouldPass target = true
      · simp only [hend, htarget, ↓reduceIte]
        rfl
      · have hfault : ((s.advance b).renumbered i c).fault = (s.advance b).fault := rfl
        simp only [hend, htarget, hfault, Bool.false_eq_true, ↓reduceIte]
        cases hf : (s.advance b).fault with
        | some e => rfl
        | none =>
          have hboard := (s.spent_advance b).eq_of_running h.running
          have hid := (s.continues_advance b).id
          simp only [hboard]
          exact ih (by rwa [hid])

/-! ## Runs and settings -/

/-- **A run does the same under another number.** -/
theorem runTo_renumbered (h : b.SameFor s.id c i) (fuel : Nat) (target : α) :
    (s.renumbered i).runTo fuel target c =
      (s.runTo fuel target b).map fun r => r.renumbered i c := by
  have hphase : (s.renumbered i).phase = s.phase := rfl
  simp only [runTo, prepare, hphase, start_renumbered h]
  by_cases hc : s.phase = .complete
  · simp only [hc, ↓reduceIte]
    rfl
  · by_cases hp : s.phase = .fresh
    · have hfault : ((s.start b).renumbered i c).fault = (s.start b).fault := rfl
      simp only [hp, hfault, reduceCtorEq, ↓reduceIte]
      cases hf : (s.start b).fault with
      | some e => rfl
      | none =>
        have hboard := (s.spent_start b).eq_of_running h.running
        have hid := (s.continues_start b).id
        simp only [hboard]
        exact stepTo_renumbered (by rwa [hid]) target fuel
    · simp only [hc, hp, ↓reduceIte]
      exact stepTo_renumbered h target fuel

omit [Scalar α] in
/-- **A setting does the same under another number,** and the boards still answer the same. -/
theorem setValue_renumbered (h : b.SameFor s.id c i) (name : String) (x : α) :
    ((s.renumbered i).setValue name x c).fault = (s.setValue name x b).fault ∧
      ((s.renumbered i).setValue name x c).sim = (s.setValue name x b).sim.renumbered i ∧
      (s.setValue name x b).board.SameFor s.id ((s.renumbered i).setValue name x c).board i := by
  have hmodel : (s.renumbered i).model = s.model := rfl
  have hid : (s.renumbered i).id = i := rfl
  have hphase : (s.renumbered i).phase = s.phase := rfl
  simp only [setValue, hmodel, hid, hphase, Board.set_of_running h.running,
    Board.set_of_running h.running']
  by_cases hdecl : s.model.declares name = true
  · by_cases hover : s.model.isOverridable name = true
    · simp only [hdecl, hover, Bool.not_true, Bool.false_eq_true, ↓reduceIte, true_and]
      refine ⟨?_, h.pin name x⟩
      by_cases hp : s.phase = .fresh
      · rw [if_pos hp, if_pos hp]
      · rw [if_neg hp, if_neg hp]
        rfl
    · simp only [hdecl, hover, Bool.not_true, Bool.not_false, Bool.false_eq_true, ↓reduceIte]
      exact ⟨rfl, trivial, h⟩
  · simp only [hdecl, Bool.not_false, ↓reduceIte]
    exact ⟨rfl, trivial, h⟩

end Sim

end StockFlow
