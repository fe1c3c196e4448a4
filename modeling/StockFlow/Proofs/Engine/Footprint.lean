import StockFlow.Proofs.Engine.Evaluation

/-!
# What computing a formula reads

Three walks go over a formula: one collects the names that it reads, one tells whether it asks for
the default of a name, and one computes it. They visit the same parts of it, so what is computed
depends on what was collected and on nothing else.

* `Sim.AlikeOn` — two simulations with their boards that cannot be told apart by some names
* `Sim.eval_alike` — they compute a formula alike, if the names are those that it mentions
* `Sim.serves_eval` — a board that answers often enough stops no computation
* `Sim.eval_footprint` — what a formula reads is all that matters when it is computed, and all of it
  is needed
-/

namespace StockFlow

variable {α : Type}

/-! ## Values that are needed -/

/-- **A formula with a value reads names that have one.** -/
theorem Formula.isSome_value_of_value? [Scalar α] {f : Formula α} {w : Setting α} {x : α}
    (h : f.value? w = some x) : ∀ n ∈ f.vars, (w.value n).isSome := by
  induction f generalizing x with
  | const _ | default _ | dt | pi => exact nofun
  | var n =>
    intro m hm
    rw [List.mem_singleton.mp hm, show w.value n = some x from h]
    rfl
  | negate y ih | apply1 _ y ih =>
    obtain ⟨v, hv, -⟩ := Option.map_eq_some_iff.mp h
    exact ih hv
  | lookup t y ih =>
    obtain ⟨v, hv, -⟩ := Option.bind_eq_some_iff.mp h
    exact ih hv
  | binary _ y z ihy ihz | apply2 _ y z ihy ihz =>
    obtain ⟨v, hv, h⟩ := Option.bind_eq_some_iff.mp h
    obtain ⟨u, hu, -⟩ := Option.map_eq_some_iff.mp h
    intro n hn
    exact (List.mem_append.mp hn).elim (ihy hv n) (ihz hu n)

/-! ## Boards that answer often enough -/

/-- A board answers the next `k` requests at least. -/
def Board.Serves (b : Board α) (k : Nat) : Prop := ∀ r ∈ b.remaining, k ≤ r

theorem Board.Serves.isOpen {b : Board α} {k : Nat} (h : b.Serves (k + 1)) : b.isOpen = true := by
  refine Bool.eq_false_imp_eq_true.mp fun hclosed => ?_
  have hk := h 0 (isOpen_eq_false_iff.mp hclosed)
  omega

theorem Board.Serves.mono {b : Board α} {k l : Nat} (h : b.Serves k) (hle : l ≤ k) : b.Serves l :=
  fun r hr => Nat.le_trans hle (h r hr)

theorem Board.Serves.tick {b : Board α} {k : Nat} (h : b.Serves (k + 1)) : b.tick.Serves k := by
  intro r hr
  obtain ⟨r', hr', rfl⟩ := Option.map_eq_some_iff.mp hr
  have hk := h r' hr'
  omega

namespace Sim

/-! ## Simulations that cannot be told apart -/

/-- **Two simulations and their boards cannot be told apart** by the values of some names, the
defaults of some and the tables of some. -/
structure AlikeOn (vars asked tables : String → Prop) (s : Sim α) (b : Board α) (t : Sim α)
    (c : Board α) : Prop where
  label : t.label = s.label
  dt : t.spec.dt = s.spec.dt
  values : ∀ n, vars n → t.values[n]? = s.values[n]?
  asked : ∀ n, asked n → c.lookup t.id t.model.defaults n = b.lookup s.id s.model.defaults n
  tables : ∀ n, tables n → t.model.equations.tables[n]? = s.model.equations.tables[n]?
  remaining : c.remaining = b.remaining

variable {s t : Sim α} {b b' c c' : Board α}

namespace AlikeOn

variable {vars vars' asked asked' tables tables' : String → Prop}

theorem mono (h : AlikeOn vars asked tables s b t c) (hvars : ∀ n, vars' n → vars n)
    (hasked : ∀ n, asked' n → asked n) (htables : ∀ n, tables' n → tables n) :
    AlikeOn vars' asked' tables' s b t c where
  label := h.label
  dt := h.dt
  values n hn := h.values n (hvars n hn)
  asked n hn := h.asked n (hasked n hn)
  tables n hn := h.tables n (htables n hn)
  remaining := h.remaining

/-- They cannot be told apart later on either, if as many questions were asked of both boards. -/
theorem spent (h : AlikeOn vars asked tables s b t c) (hb : b.Spent b') (hc : c.Spent c')
    (hremaining : c'.remaining = b'.remaining) : AlikeOn vars asked tables s b' t c' where
  label := h.label
  dt := h.dt
  values := h.values
  asked n hn := by rw [hb.lookup_eq, hc.lookup_eq, h.asked n hn]
  tables := h.tables
  remaining := hremaining

end AlikeOn

variable [Scalar α] {f : Formula α}

/-- **A formula is computed alike in simulations that cannot be told apart by what it mentions,**
with a value or with a fault, and as many questions are asked of both boards. -/
theorem eval_alike (h : AlikeOn (· ∈ f.vars) (· ∈ f.asked) (· ∈ f.tables) s b t c) :
    ∃ res b' c', s.eval f b = (res, b') ∧ t.eval f c = (res, c') ∧
      c'.remaining = b'.remaining := by
  induction f generalizing b c with
  | const _ | pi => exact ⟨_, _, _, rfl, rfl, h.remaining⟩
  | dt =>
    rw [eval, eval, h.dt]
    exact ⟨_, _, _, rfl, rfl, h.remaining⟩
  | var n =>
    rw [eval, eval, value, value, h.values n (List.mem_singleton_self n), h.label]
    exact ⟨_, _, _, rfl, rfl, h.remaining⟩
  | default n =>
    have hopen : c.isOpen = b.isOpen := by rw [Board.isOpen, Board.isOpen, h.remaining]
    rw [eval, eval, Board.get_eq, Board.get_eq, hopen, h.asked n (List.mem_singleton_self n),
      h.label]
    cases b.isOpen with
    | false => exact ⟨_, _, _, rfl, rfl, h.remaining⟩
    | true =>
      have hticked : c.tick.remaining = b.tick.remaining := by
        rw [Board.tick, Board.tick, h.remaining]
      cases b.lookup s.id s.model.defaults n with
      | some x => exact ⟨_, _, _, rfl, rfl, hticked⟩
      | none => exact ⟨_, _, _, rfl, rfl, hticked⟩
  | negate x ih | apply1 _ x ih =>
    obtain ⟨res, b', c', hs, ht, hleft⟩ := ih h
    rw [eval, eval, hs, ht]
    cases res with
    | ok v => exact ⟨_, _, _, rfl, rfl, hleft⟩
    | error e => exact ⟨_, _, _, rfl, rfl, hleft⟩
  | lookup n x ih =>
    obtain ⟨res, b', c', hs, ht, hleft⟩ := ih (h.mono (fun _ hn => hn) (fun _ hn => hn)
      fun _ => List.mem_cons_of_mem n)
    rw [eval, eval, hs, ht, h.tables n (List.mem_cons_self ..), h.label]
    cases res with
    | error e => exact ⟨_, _, _, rfl, rfl, hleft⟩
    | ok v =>
      cases s.model.equations.tables[n]? with
      | some table => exact ⟨_, _, _, rfl, rfl, hleft⟩
      | none => exact ⟨_, _, _, rfl, rfl, hleft⟩
  | binary _ x y ihx ihy | apply2 _ x y ihx ihy =>
    have hx := h.mono (fun _ => List.mem_append_left y.vars)
      (fun _ => List.mem_append_left y.asked) (fun _ => List.mem_append_left y.tables)
    have hy := h.mono (fun _ => List.mem_append_right x.vars)
      (fun _ => List.mem_append_right x.asked) (fun _ => List.mem_append_right x.tables)
    obtain ⟨res, b', c', hs, ht, hleft⟩ := ihx hx
    rw [eval, eval, hs, ht]
    cases res with
    | error e => exact ⟨_, _, _, rfl, rfl, hleft⟩
    | ok v =>
      -- Both boards were asked as often for the first part, so the second finds them alike.
      obtain ⟨res', b'', c'', hs', ht', hend⟩ :=
        ihy (hy.spent (spent_eval hs) (spent_eval ht) hleft)
      simp only [hs', ht']
      cases res' with
      | ok u => exact ⟨_, _, _, rfl, rfl, hend⟩
      | error e => exact ⟨_, _, _, rfl, rfl, hend⟩

/-! ## Computations that are not stopped -/

/-- **A board that answers often enough stops no computation,** and answers on afterwards. -/
theorem serves_eval {k : Nat} (h : b.Serves (f.asked.length + k)) : ∃ res b',
    s.eval f b = (res, b') ∧ b'.Serves k ∧ ∀ n, res ≠ .error (.stopped n) := by
  induction f generalizing b k with
  | const _ | dt | pi =>
    rw [Formula.asked, List.length_nil, Nat.zero_add] at h
    exact ⟨_, _, rfl, h, by simp⟩
  | var n =>
    rw [Formula.asked, List.length_nil, Nat.zero_add] at h
    rw [eval, value]
    cases s.values[n]? with
    | some x => exact ⟨_, _, rfl, h, by simp⟩
    | none => exact ⟨_, _, rfl, h, by simp⟩
  | default n =>
    rw [Formula.asked, List.length_singleton, Nat.add_comm] at h
    rw [eval, Board.get_eq, if_pos h.isOpen]
    cases b.lookup s.id s.model.defaults n with
    | some x => exact ⟨_, _, rfl, h.tick, by simp⟩
    | none => exact ⟨_, _, rfl, h.tick, by simp⟩
  | negate x ih | apply1 _ x ih =>
    obtain ⟨res, b', hs, hserves, hres⟩ := ih h
    rw [eval, hs]
    cases res with
    | ok v => exact ⟨_, _, rfl, hserves, by simp⟩
    | error e => exact ⟨_, _, rfl, hserves, hres⟩
  | lookup t x ih =>
    obtain ⟨res, b', hs, hserves, hres⟩ := ih h
    rw [eval, hs]
    cases res with
    | error e => exact ⟨_, _, rfl, hserves, hres⟩
    | ok v =>
      cases s.model.equations.tables[t]? with
      | some table => exact ⟨_, _, rfl, hserves, by simp⟩
      | none => exact ⟨_, _, rfl, hserves, by simp⟩
  | binary _ x y ihx ihy | apply2 _ x y ihx ihy =>
    rw [Formula.asked, List.length_append, Nat.add_assoc] at h
    obtain ⟨res, b', hs, hserves, hres⟩ := ihx h
    rw [eval, hs]
    cases res with
    | error e =>
      refine ⟨_, _, rfl, ?_, hres⟩
      exact hserves.mono (Nat.le_add_left k _)
    | ok v =>
      obtain ⟨res', b'', hs', hserves', hres'⟩ := ihy hserves
      simp only [hs']
      cases res' with
      | ok u => exact ⟨_, _, rfl, hserves', by simp⟩
      | error e => exact ⟨_, _, rfl, hserves', hres'⟩

/-! ## The footprint of a formula -/

/-- All that a formula asks for apart from present values is there: its tables, and its defaults on
a board that answers as often as it is asked. -/
structure Attended (s : Sim α) (b : Board α) (f : Formula α) : Prop where
  tables : ∀ n ∈ f.tables, (s.model.equations.tables[n]?).isSome
  asked : ∀ n, f.readsDefault n = true → (b.lookup s.id s.model.defaults n).isSome
  serves : b.Serves f.asked.length

/-- **Where all else is there, a formula is computed exactly if all names that it reads have a
value.** -/
theorem eval_isOk_iff (h : s.Attended b f) :
    (∃ x, (s.eval f b).1 = .ok x) ↔ ∀ n ∈ f.reads, (s.values[n]?).isSome := by
  have hserves : b.Serves (f.asked.length + 0) := h.serves
  obtain ⟨res, b', hres, -, hstopped⟩ := serves_eval (s := s) hserves
  have heval := evaluated_eval s f b
  rw [hres] at heval ⊢
  constructor
  · rintro ⟨x, rfl⟩ n hn
    cases heval with
    | value hx _ => exact Formula.isSome_value_of_value? hx n (Formula.mem_reads.mp hn)
  · intro hreads
    have hsome : (f.value? (s.setting b)).isSome := Formula.isSome_value?
      (fun n hn => hreads n (Formula.mem_reads.mpr hn))
      (fun n hn => h.asked n (Formula.readsDefault_iff.mpr hn)) h.tables
    -- Nothing is unknown, and nothing is stopped, so there is a value.
    cases heval with
    | value _ _ => exact ⟨_, rfl⟩
    | unknown hnone _ =>
      rw [hnone] at hsome
      cases hsome
    | stopped _ _ _ => exact absurd rfl (hstopped _)

/-- **What a formula reads is its footprint.** Simulations with the same step whose values agree on
the names that it reads, and whose boards and tables answer alike to what it asks for, compute the
same, be it a value or a fault. Where its tables and defaults are there, it has a value exactly if
all names that it reads have one. And what the board holds for a name shows only if the formula asks
for the default of that name. -/
theorem eval_footprint (f : Formula α) :
    (∀ (s t : Sim α) (b c : Board α),
      AlikeOn (· ∈ f.reads) (fun n => f.readsDefault n = true) (· ∈ f.tables) s b t c →
        (t.eval f c).1 = (s.eval f b).1) ∧
    (∀ (s : Sim α) (b : Board α), s.Attended b f →
      ((∃ x, (s.eval f b).1 = .ok x) ↔ ∀ n ∈ f.reads, (s.values[n]?).isSome)) ∧
    ∀ (s : Sim α) (b c : Board α) (n : String), c.remaining = b.remaining →
      (∀ m, m ≠ n → c.lookup s.id s.model.defaults m = b.lookup s.id s.model.defaults m) →
        (s.eval f c).1 ≠ (s.eval f b).1 → f.readsDefault n = true := by
  have halike : ∀ (s t : Sim α) (b c : Board α),
      AlikeOn (· ∈ f.reads) (fun n => f.readsDefault n = true) (· ∈ f.tables) s b t c →
        (t.eval f c).1 = (s.eval f b).1 := by
    intro s t b c h
    obtain ⟨res, b', c', hs, ht, -⟩ := eval_alike (h.mono (fun _ => Formula.mem_reads.mpr)
      (fun _ => Formula.readsDefault_iff.mpr) fun _ hn => hn)
    rw [hs, ht]
  refine ⟨halike, fun s b => eval_isOk_iff, ?_⟩
  intro s b c n hremaining hothers hne
  by_contra hnot
  refine hne (halike s s b c ⟨rfl, rfl, fun _ _ => rfl, ?_, fun _ _ => rfl, hremaining⟩)
  rintro m hm
  exact hothers m fun he => hnot (he ▸ hm)

/-- A formula that reads a variable, a table, a default and the step. -/
def sampled : Formula Float :=
  .binary .add (.var "level") (.apply2 .max (.lookup "curve" (.default "rate")) .dt)

/-- A simulation in which that formula can be computed. -/
def sampler : Sim Float where
  id := 0
  label := "main"
  model := {
    name := "main", isInterface := false, isAbstract := false, vars := [], timespec := none
    defaults := .ofList [("rate", (1 : Float))]
    equations := ⟨[], [], [], .ofList [("curve", (⟨#[0, 2], #[0, 4]⟩ : Table Float))]⟩ }
  spec := ⟨0, 1, 0.5, 0.5⟩
  saveEvery := 1
  values := .ofList [("level", (3 : Float)), ("other", 1)]
  report := .empty "main" []
  step := 0
  phase := .initialized

theorem eval_footprint_sampled :
    AlikeOn (· ∈ sampled.reads) (fun n => sampled.readsDefault n = true) (· ∈ sampled.tables)
      sampler .empty (sampler.assign "other" 2) .empty ∧
    ((sampler.assign "other" 2).eval sampled .empty).1 = (sampler.eval sampled .empty).1 ∧
    sampler.Attended .empty sampled ∧ (∃ x, (sampler.eval sampled .empty).1 = .ok x) ∧
    (sampler.eval sampled (Board.empty.pin 0 "rate" 2)).1 ≠ (sampler.eval sampled .empty).1 ∧
    sampled.readsDefault "rate" = true := by
  obtain ⟨hsame, hok, hshows⟩ := eval_footprint sampled
  have hreads : ∀ n ∈ sampled.reads, n = "level" := fun n hn =>
    List.mem_singleton.mp (Formula.mem_reads.mp hn)
  have halike : AlikeOn (· ∈ sampled.reads) (fun n => sampled.readsDefault n = true)
      (· ∈ sampled.tables) sampler .empty (sampler.assign "other" 2) .empty := by
    refine ⟨rfl, rfl, fun n hn => ?_, fun _ _ => rfl, fun _ _ => rfl, rfl⟩
    rw [hreads n hn]
    exact getElem?_assign_of_ne sampler 2 (by decide)
  have hattended : sampler.Attended .empty sampled := by
    refine ⟨by decide +kernel, fun n hn => ?_, nofun⟩
    rw [List.mem_singleton.mp (Formula.readsDefault_iff.mp hn)]
    decide +kernel
  have hdiffer : (sampler.eval sampled (Board.empty.pin 0 "rate" 2)).1 ≠
      (sampler.eval sampled .empty).1 := by
    intro heq
    have hbits := congrArg (fun r => r.toOption.map Float.toBits) heq
    revert hbits
    decide +kernel
  have hvalues : ∀ n ∈ sampled.reads, (sampler.values[n]?).isSome := fun n hn => by
    rw [hreads n hn]
    decide +kernel
  have hothers : ∀ m, m ≠ "rate" →
      (Board.empty.pin 0 "rate" 2).lookup sampler.id sampler.model.defaults m =
        Board.empty.lookup sampler.id sampler.model.defaults m := fun m hm => by
    rw [Board.lookup_pin, if_neg fun h => hm h.2.symm]
  have hasks := hshows sampler .empty (Board.empty.pin 0 "rate" 2) "rate" rfl hothers hdiffer
  exact ⟨halike, hsame _ _ _ _ halike, hattended, (hok _ _ hattended).mpr hvalues, hdiffer, hasks⟩

end Sim

end StockFlow
