import StockFlow.Proofs.Engine.History
import Mathlib.Data.List.Forall2

/-!
# Two simulations side by side

Two simulations that are alike in some way stay alike in whatever is done with both, if starting and
stepping keep them so. On boards that nobody closes nothing goes wrong with either of them, and if
they agree on when to stop they make the same number of steps.

* `Sim.Abreast` — two sound simulations that are alike, on boards that nobody closes
* `Sim.Kept` — a way of being alike that is kept
* `Sim.Kept.runTo` — runs go through states that are alike
* `Sim.Kept.performAll` — so do all runs and settings, one after the other
-/

namespace StockFlow.Sim

variable {α : Type} {s s' t t' : Sim α} {b b' : Board α}
  {Q : Sim α → Board α → Sim α → Board α → Prop}

/-- Two sound simulations with which nothing went wrong, on boards that nobody closes, and they are
alike. -/
structure Abreast (Q : Sim α → Board α → Sim α → Board α → Prop) (s : Sim α) (b : Board α)
    (s' : Sim α) (b' : Board α) : Prop where
  alike : Q s b s' b'
  running : b.remaining = none
  running' : b'.remaining = none
  sound : s.Sound
  sound' : s'.Sound
  alive : s.Alive
  alive' : s'.Alive

/-- Simulations that are alike go on with the same boards. -/
theorem Abreast.goOn (h : Abreast Q s b s' b') (hcont : s.Continues t) (hcont' : s'.Continues t')
    (halike : Q t b t' b') (halive : t.Alive) (halive' : t'.Alive) : Abreast Q t b t' b' :=
  ⟨halike, h.running, h.running', h.sound.continues hcont, h.sound'.continues hcont', halive,
    halive'⟩

theorem Running.complete (h : s.Running) : Running { s with phase := .complete } :=
  ⟨nofun, h.settled.congr rfl rfl, h.rows⟩

variable [Scalar α]

/-! ## Starting and stepping -/

/-- **A way of being alike that is kept:** simulations that are alike agree on when to stop, and
starting, stepping and ending keep them alike. -/
structure Kept (Q : Sim α → Board α → Sim α → Board α → Prop) : Prop where
  phase : ∀ {s b s' b'}, Q s b s' b' → s'.phase = s.phase
  passes : ∀ {s b s' b'}, Q s b s' b' → ∀ t, s'.wouldPass t = s.wouldPass t
  stop : ∀ {s b s' b'}, Q s b s' b' → s'.spec.stop = s.spec.stop
  start : ∀ {s b s' b'}, Abreast Q s b s' b' → (s.start b).fault = none →
    (s'.start b').fault = none → Q (s.start b).sim b (s'.start b').sim b'
  advance : ∀ {s b s' b'}, Abreast Q s b s' b' → (s.advance b).fault = none →
    (s'.advance b').fault = none → Q (s.advance b).sim b (s'.advance b').sim b'
  complete : ∀ {s b s' b'}, Q s b s' b' →
    Q { s with phase := .complete } b { s' with phase := .complete } b'

/-- The ends of two runs: neither ends, or both get through and end alike. -/
def EndAlike (Q : Sim α → Board α → Sim α → Board α → Prop) (b b' : Board α)
    (x y : Option (Reached α)) : Prop :=
  (x = none ∧ y = none) ∨ ∃ t t', x = some ⟨t, b, none⟩ ∧ y = some ⟨t', b', none⟩ ∧
    Abreast Q t b t' b'

namespace Kept

theorem start_abreast (hQ : Kept Q) (h : Abreast Q s b s' b') (hp : s.phase = .fresh) :
    (s.start b).fault = none ∧ (s'.start b').fault = none ∧ (s.start b).sim.phase ≠ .fresh ∧
      Abreast Q (s.start b).sim b (s'.start b').sim b' := by
  have hp' : s'.phase = .fresh := (hQ.phase h.alike).trans hp
  have hok := (h.alive.fresh hp).fault_start h.sound h.running
  have hok' := (h.alive'.fresh hp').fault_start h.sound' h.running'
  have hrun := (h.alive.start_of_ok h.sound hp hok).1
  have hrun' := (h.alive'.start_of_ok h.sound' hp' hok').1
  exact ⟨hok, hok', hrun.begun, h.goOn (s.continues_start b) (s'.continues_start b')
    (hQ.start h hok hok') (Or.inr hrun) (Or.inr hrun')⟩

theorem advance_abreast (hQ : Kept Q) (h : Abreast Q s b s' b') (hp : s.phase ≠ .fresh) :
    (s.advance b).fault = none ∧ (s'.advance b').fault = none ∧
      (s.advance b).sim.phase ≠ .fresh ∧ Abreast Q (s.advance b).sim b (s'.advance b').sim b' := by
  have hbegun := h.alive.running hp
  have hbegun' := h.alive'.running (hQ.phase h.alike ▸ hp)
  have hok := hbegun.fault_advance h.sound h.running
  have hok' := hbegun'.fault_advance h.sound' h.running'
  have hrun := (Running.advance_of_ok ⟨hbegun, h.sound, .refl s⟩ hok).1
  have hrun' := (Running.advance_of_ok ⟨hbegun', h.sound', .refl s'⟩ hok').1
  exact ⟨hok, hok', hrun.begun, h.goOn (s.continues_advance b) (s'.continues_advance b')
    (hQ.advance h hok hok') (Or.inr hrun) (Or.inr hrun')⟩

theorem complete_abreast (hQ : Kept Q) (h : Abreast Q s b s' b') (hp : s.phase ≠ .fresh) :
    Abreast Q { s with phase := .complete } b { s' with phase := .complete } b' :=
  h.goOn ⟨rfl, rfl, rfl, rfl, rfl, rfl⟩ ⟨rfl, rfl, rfl, rfl, rfl, rfl⟩ (hQ.complete h.alike)
    (Or.inr (h.alive.running hp).complete)
    (Or.inr (h.alive'.running (hQ.phase h.alike ▸ hp)).complete)

/-! ## Runs -/

/-- **Simulations that are alike make the same steps.** -/
theorem stepTo (hQ : Kept Q) (h : Abreast Q s b s' b') (hp : s.phase ≠ .fresh) (fuel : Nat)
    (target : α) :
    List.Forall₂ (fun t t' => Q t b t' b') (trailTo target fuel s b) (trailTo target fuel s' b') ∧
      EndAlike Q b b' (Sim.stepTo target fuel s b) (Sim.stepTo target fuel s' b') := by
  induction fuel generalizing s s' with
  | zero => exact ⟨.nil, Or.inl ⟨rfl, rfl⟩⟩
  | succ fuel ih =>
    obtain ⟨hok, hok', hbegun, hnext⟩ := hQ.advance_abreast h hp
    have hboard := (s.spent_advance b).eq_of_running h.running
    have hboard' := (s'.spent_advance b').eq_of_running h.running'
    simp only [trailTo, Sim.stepTo, hQ.stop h.alike, hQ.passes h.alike, hok, hok', hboard, hboard']
    by_cases hend : s.wouldPass s.spec.stop = true
    · simp only [hend, Bool.true_or, ↓reduceIte]
      exact ⟨.nil, Or.inr ⟨_, _, rfl, rfl, hQ.complete_abreast h hp⟩⟩
    · by_cases hpass : s.wouldPass target = true
      · simp only [hend, hpass, Bool.or_true, Bool.false_eq_true, ↓reduceIte]
        exact ⟨.nil, Or.inr ⟨_, _, rfl, rfl, h⟩⟩
      · simp only [hend, hpass, Bool.or_self, Bool.false_eq_true, ↓reduceIte]
        obtain ⟨htrail, hends⟩ := ih hnext hbegun
        exact ⟨.cons hnext.alike htrail, hends⟩

/-- **Simulations that are alike go through states that are alike where they are run.** -/
theorem runTo (hQ : Kept Q) (h : Abreast Q s b s' b') (fuel : Nat) (target : α) :
    List.Forall₂ (fun t t' => Q t b t' b') (s.trail fuel target b) (s'.trail fuel target b') ∧
      EndAlike Q b b' (s.runTo fuel target b) (s'.runTo fuel target b') := by
  by_cases hc : s.phase = .complete
  · have hc' := (hQ.phase h.alike).trans hc
    rw [trail_of_complete hc, trail_of_complete hc', Sim.runTo, Sim.runTo, if_pos hc, if_pos hc']
    exact ⟨.nil, Or.inr ⟨s, s', rfl, rfl, h⟩⟩
  · have hc' : s'.phase ≠ .complete := hQ.phase h.alike ▸ hc
    by_cases hp : s.phase = .fresh
    · have hp' := (hQ.phase h.alike).trans hp
      obtain ⟨hok, hok', hbegun, hstarted⟩ := hQ.start_abreast h hp
      have hboard := (s.spent_start b).eq_of_running h.running
      have hboard' := (s'.spent_start b').eq_of_running h.running'
      obtain ⟨htrail, hends⟩ := hQ.stepTo hstarted hbegun fuel target
      rw [trail_of_fresh hp hok, trail_of_fresh hp' hok', hboard, hboard']
      simp only [Sim.runTo, Sim.prepare, hp, hp', hok, hok', hboard, hboard', reduceCtorEq,
        ↓reduceIte]
      exact ⟨.cons hstarted.alike htrail, hends⟩
    · have hp' : s'.phase ≠ .fresh := hQ.phase h.alike ▸ hp
      rw [trail_of_begun hp hc, trail_of_begun hp' hc']
      simp only [Sim.runTo, Sim.prepare, hp, hp', hc, hc', ↓reduceIte]
      exact hQ.stepTo h hp fuel target

end Kept

/-! ## Runs and settings, one after the other -/

/-- What the user of a simulation does with it. -/
inductive Command (α : Type) where
  | run (target : α)
  | set (name : String) (x : α)

/-- Does what the user says. A run that takes more than `fuel` steps has no answer. -/
def perform (fuel : Nat) (s : Sim α) (b : Board α) : Command α → Option (Reached α)
  | .run target => s.runTo fuel target b
  | .set name x => some (s.setValue name x b)

/-- The states that can be seen while the user is served, the last of them included. -/
def states (fuel : Nat) (s : Sim α) (b : Board α) (r : Reached α) : Command α → List (Sim α)
  | .run target => s.trail fuel target b ++ [r.sim]
  | .set _ _ => [r.sim]

/-- What was answered to a user. -/
structure Served (α : Type) where
  fault : Option RunFault
  /-- The states on the way and the one afterwards. -/
  states : List (Sim α)

/-- Does one thing after the other, whatever is answered. -/
def performAll (fuel : Nat) : List (Command α) → Sim α → Board α →
    Option (List (Served α) × Sim α × Board α)
  | [], s, b => some ([], s, b)
  | c :: commands, s, b => do
    let r ← s.perform fuel b c
    let (served, last) ← performAll fuel commands r.sim r.board
    return (⟨r.fault, s.states fuel b r c⟩ :: served, last)

/-- What the user says, among all that can happen. -/
def Command.call : Command α → Call α
  | run target => .run target
  | set name x => .set name x

/-- What the user says happens, and the board stays open. -/
theorem History.performAll {s₀ : Sim α} {b₀ c : Board α} {log : Log α} {fuel : Nat}
    {commands : List (Command α)} {served : List (Served α)} (h : History s₀ b₀ log s b)
    (hlog : log.KeptOpen) (hr : Sim.performAll fuel commands s b = some (served, t, c)) :
    ∃ log', History s₀ b₀ log' t c ∧ log'.KeptOpen := by
  induction commands generalizing s b log served with
  | nil =>
    cases hr
    exact ⟨log, h, hlog⟩
  | cons command commands ih =>
    obtain ⟨r, hone, hr⟩ := Option.bind_eq_some_iff.mp hr
    obtain ⟨⟨rest, last⟩, hrest, hr⟩ := Option.bind_eq_some_iff.mp hr
    cases hr
    have hperforms : Performs s b command.call r := by
      cases command with
      | run target => exact .run hone
      | set name x =>
        cases hone
        exact .set name x
    have hopen : ¬command.call.IsClose := by cases command <;> exact not_false
    exact ih (h.snoc hperforms) (Log.keptOpen_snoc.mpr ⟨hlog, hopen⟩) hrest

/-- Two users are served the same, but for states that are only alike: both wait for ever, or both
get the same answers, step by step. -/
def ServedAlike (R : Sim α → Sim α → Prop) (x y : Option (List (Served α) × Sim α × Board α)) :
    Prop :=
  (x = none ∧ y = none) ∨ ∃ served served' last last', x = some (served, last) ∧
    y = some (served', last') ∧ R last.1 last'.1 ∧
    List.Forall₂ (fun a a' => a'.fault = a.fault ∧ List.Forall₂ R a.states a'.states) served served'

/-- A way of being alike that settings keep, which are answered the same. -/
def KeptBySet (Q : Sim α → Board α → Sim α → Board α → Prop) : Prop :=
  ∀ {s b s' b'}, Abreast Q s b s' b' → ∀ name x,
    (s'.setValue name x b').fault = (s.setValue name x b).fault ∧
      Q (s.setValue name x b).sim (s.setValue name x b).board
        (s'.setValue name x b').sim (s'.setValue name x b').board

omit [Scalar α] in
theorem remaining_setValue (hb : b.remaining = none) (name : String) (x : α) :
    (s.setValue name x b).board.remaining = none := by
  rcases s.setValue_cases name x b with ⟨e, he⟩ | ⟨_, _, he⟩
  · rwa [he]
  · rw [he, Board.tick_of_running hb]
    exact hb

omit [Scalar α] in
theorem KeptBySet.set_abreast (hQ : KeptBySet Q) (h : Abreast Q s b s' b') (name : String) (x : α) :
    (s'.setValue name x b').fault = (s.setValue name x b).fault ∧
      Abreast Q (s.setValue name x b).sim (s.setValue name x b).board
        (s'.setValue name x b').sim (s'.setValue name x b').board := by
  obtain ⟨hfault, halike⟩ := hQ h name x
  exact ⟨hfault, halike, remaining_setValue h.running name x, remaining_setValue h.running' name x,
    h.sound.continues (s.continues_setValue name x b),
    h.sound'.continues (s'.continues_setValue name x b'),
    h.alive.setValue name x b, h.alive'.setValue name x b'⟩

namespace Kept

variable {R : Sim α → Sim α → Prop}

/-- What one command does: it is answered the same to both, who are alike afterwards and in all
states on the way. -/
theorem perform (hQ : Kept Q) (hset : KeptBySet Q) (hR : ∀ {s b s' b'}, Q s b s' b' → R s s')
    (h : Abreast Q s b s' b') (fuel : Nat) (c : Command α) :
    (s.perform fuel b c = none ∧ s'.perform fuel b' c = none) ∨
      ∃ r r', s.perform fuel b c = some r ∧ s'.perform fuel b' c = some r' ∧ r'.fault = r.fault ∧
        List.Forall₂ R (s.states fuel b r c) (s'.states fuel b' r' c) ∧
        Abreast Q r.sim r.board r'.sim r'.board := by
  cases c with
  | run target =>
    obtain ⟨htrail, ⟨hr, hr'⟩ | ⟨t, t', hr, hr', hend⟩⟩ := hQ.runTo h fuel target
    · exact Or.inl ⟨hr, hr'⟩
    · have hall := List.rel_append (htrail.imp fun _ _ => hR) (.cons (hR hend.alike) .nil)
      exact Or.inr ⟨_, _, hr, hr', rfl, hall, hend⟩
  | set name x =>
    obtain ⟨hfault, hnext⟩ := hset.set_abreast h name x
    exact Or.inr ⟨_, _, rfl, rfl, hfault, .cons (hR hnext.alike) .nil, hnext⟩

/-- **What runs and settings keep is kept in any sequence of them.** -/
theorem performAll (hQ : Kept Q) (hset : KeptBySet Q) (hR : ∀ {s b s' b'}, Q s b s' b' → R s s')
    (h : Abreast Q s b s' b') (fuel : Nat) (commands : List (Command α)) :
    ServedAlike R (Sim.performAll fuel commands s b) (Sim.performAll fuel commands s' b') := by
  induction commands generalizing s b s' b' with
  | nil => exact Or.inr ⟨[], [], (s, b), (s', b'), rfl, rfl, hR h.alike, .nil⟩
  | cons c commands ih =>
    unfold Sim.performAll
    rcases hQ.perform hset hR h fuel c with ⟨hr, hr'⟩ | ⟨r, r', hr, hr', hfault, hstates, hnext⟩
    · rw [hr, hr']
      exact Or.inl ⟨rfl, rfl⟩
    · rw [hr, hr']
      simp only [Option.bind_eq_bind, Option.bind_some]
      rcases ih hnext with ⟨hrest, hrest'⟩ |
        ⟨served, served', last, last', hrest, hrest', hlast, hall⟩
      · rw [hrest, hrest']
        exact Or.inl ⟨rfl, rfl⟩
      · rw [hrest, hrest']
        exact Or.inr ⟨_, _, last, last', rfl, rfl, hlast, .cons ⟨hfault, hstates⟩ hall⟩

end Kept

end StockFlow.Sim
