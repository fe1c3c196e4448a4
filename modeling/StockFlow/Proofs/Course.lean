import StockFlow.Proofs.Engine.History
import StockFlow.Proofs.Equation.Meaning
import StockFlow.Proofs.Project

/-!
# Simulations follow the course of their model

* `Sim.begins_start`, `Sim.follows_advance` — starting gives the first state, and a step the next
* `Compiled.exists_course` — every model has a course
* `Project.follows_course` — a simulation of a text is at each step in the state that the statements
  give for it
-/

namespace StockFlow

theorem Compiled.mem_varNames {d : Definition} {names : Names}
    {found : List (String × Contribution)} {m : Model Float} (h : Compiled d names found m)
    {n : String} {part : Contribution → Bool} (hn : ∃ c, (n, c) ∈ found ∧ part c = true) :
    n ∈ d.varNames := by
  obtain ⟨c, hc, _⟩ := hn
  rw [← h.fst_eq]
  exact List.mem_map_of_mem hc

/-- A board on which nothing is pinned for a simulation. -/
def Board.Unpinned (b : Board Float) (id : SimId) : Prop := ∀ n, b.pinned? id n = none

namespace Sim

variable {d : Definition} {names : Names} {found : List (String × Contribution)} {m : Model Float}
  {s : Sim Float} {b : Board Float}

/-- The state of a simulation. -/
def state (s : Sim Float) : State := fun n => s.values[n]?

theorem setting_of_unpinned (hb : b.Unpinned s.id) :
    s.setting b = s.model.setting s.spec s.state := by
  unfold setting Model.setting
  congr 1
  funext n
  rw [Board.lookup, hb n]
  rfl

theorem bare_create {id : SimId} {label : String} {m : Model Float} {spec : Timespec Float}
    {saveEvery : Nat} {n : String} (hn : n ≠ timeName) :
    (create id label m spec saveEvery).values[n]? = none := by
  rw [create, getElem?_insert_values, if_neg fun he : timeName = n => hn he.symm]
  rfl

/-! ## One state -/

/-- **Computing what a step computes makes the equations hold.** -/
theorem solves_of_fulfils {v : Values Float} (h : Compiled d names found s.model)
    (hb : b.Unpinned s.id) (hf : s.Fulfils b s.model.equations.flows v)
    (hbase : ∀ n, n ∉ s.model.stateNames → s.values[n]? = none) :
    d.Solves s.spec (s.withValues v).state := by
  have hother : ∀ n, n ∉ s.model.stateNames → (s.withValues v).state n = none := fun n hn =>
    (hf.others n fun hflow => hn (List.mem_cons_of_mem _ (List.mem_append_right _ hflow))).trans
      (hbase n hn)
  refine ⟨?_, fun n htime hvar => hother n ?_⟩
  · intro n side heq
    rcases h.rule_of_equation heq with hflow | ⟨hn, hnone⟩
    · obtain ⟨r, hr, rfl⟩ := mem_ruleNames.mp hflow
      obtain ⟨side', heq', hvalue⟩ := h.exists_equation hr
      cases h.says_unique heq.1 heq'.1
      obtain ⟨x, hx, hval⟩ := hf.rules r hr
      rw [setting_of_unpinned (s := s.withValues v) hb] at hval
      rw [hvalue]
      exact hx.trans hval.symm
    · rw [hother n hn, hnone]
  · intro hstate
    rcases List.mem_cons.mp hstate with he | hstate
    · exact htime he
    · refine hvar ?_
      rcases List.mem_append.mp hstate with hstock | hflow
      · exact h.mem_varNames (h.mem_stockNames.mp hstock)
      · exact h.mem_varNames (h.mem_flowNames.mp hflow)

/-- **Starting gives the first state.** -/
theorem begins_start (h : Compiled d names found s.model) (hb : b.Unpinned s.id)
    (htime : s.values[timeName]? = some s.spec.start)
    (hnone : ∀ n, n ≠ timeName → s.values[n]? = none) (hok : (s.start b).fault = none) :
    d.Begins s.spec (s.start b).sim.state := by
  have hm := h.sound
  obtain ⟨u, v, hu, hv, hsim, _⟩ := start_ok hm hok
  have hstate : (s.start b).sim.state = ((s.withValues u).withValues v).state := by rw [hsim]; rfl
  have hutime : u[timeName]? = some s.spec.start :=
    (hu.others _ hm.time_not_initial).trans htime
  have hbase : ∀ n, n ∉ s.model.stateNames → u[n]? = none := by
    intro n hn
    rw [hu.others n fun hi => hn (List.mem_cons_of_mem _ (hm.initials_names hi))]
    exact hnone n fun he : n = timeName => hn (he ▸ List.mem_cons_self ..)
  have hinitials : ∀ r ∈ s.model.equations.initials,
      (s.withValues u).state r.name =
        r.formula.value? (s.model.setting s.spec (s.withValues u).state) := by
    intro r hr
    obtain ⟨x, hx, hval⟩ := hu.rules r hr
    rw [setting_of_unpinned (s := s.withValues u) hb] at hval
    exact hx.trans hval.symm
  rw [hstate]
  refine ⟨(hv.others _ hm.time_not_flow).trans hutime, ?_,
    solves_of_fulfils (s := s.withValues u) h hb hv hbase⟩
  intro n body hstock
  have hn := h.rule_of_stock hstock
  obtain ⟨r, hr, rfl⟩ := mem_ruleNames.mp (hm.started hn)
  obtain ⟨x, hx, _⟩ := hu.rules r hr
  have hstarts := h.startsAt_of_initials hutime hinitials r hr x hx
  refine ⟨x, hstarts, ?_⟩
  exact (hv.others _ fun hflow => hm.flow_not_stock hflow hn).trans hx

/-- **A step gives the state after a state.** -/
theorem follows_advance (h : Compiled d names found s.model) (hb : b.Unpinned s.id)
    (hs : s.Settled) (hok : (s.advance b).fault = none) :
    d.Follows s.spec s.state (s.advance b).sim.state := by
  have hm := h.sound
  obtain ⟨w, v, hw, hstocks, hv, hsim, _⟩ := advance_ok hm hok
  have hstate : (s.advance b).sim.state = ((s.moved w).withValues v).state := by
    rw [hsim]
    exact funext fun n => congrArg (·[n]?) (saveIfDue_values _)
  rw [hstate]
  -- what is computed at a step leaves the stocks and the time alone
  have hstock_eq : ∀ n ∈ ruleNames s.model.equations.stocks,
      ((s.moved w).withValues v).state n = w[n]? := by
    intro n hn
    refine (hv.others n fun hflow => hm.flow_not_stock hflow hn).trans ?_
    rw [getElem?_moved, if_neg fun htime : timeName = n => hm.time_not_stock (htime ▸ hn)]
  obtain ⟨t, ht⟩ := Option.isSome_iff_exists.mp (hs timeName (List.mem_cons_self ..))
  refine ⟨⟨t, ht, (hv.others _ hm.time_not_flow).trans ?_⟩, ?_,
    solves_of_fulfils (s := s.moved w) h hb hv ?_⟩
  · rw [getElem?_moved, if_pos rfl, nextTime, time, Std.TreeMap.getD_eq_getD_getElem?, ht]
    rfl
  · intro n body hstock
    obtain ⟨r, hr, rfl⟩ := mem_ruleNames.mp (h.rule_of_stock hstock)
    obtain ⟨body', net, hstock', hform, hnet⟩ := h.exists_stock hr
    cases h.says_unique hstock.1 hstock'.1
    obtain ⟨y, hy, hval⟩ := hstocks r hr
    rw [hform, setting_of_unpinned hb] at hval
    obtain ⟨x, flow, hx, hflow, rfl⟩ := Compiled.value?_nextFormula hval
    exact ⟨x, flow, hx, (hnet s.spec s.state).trans hflow,
      (hstock_eq _ (name_mem_ruleNames hr)).trans hy⟩
  · intro n hn
    rw [getElem?_moved, if_neg fun he : timeName = n => hn (he ▸ List.mem_cons_self ..)]
    exact hw n fun hstock => hn (List.mem_cons_of_mem _ (List.mem_append_left _ hstock))

/-! ## All states -/

/-- Where a simulation comes to if it is started and makes some steps, whatever its end. -/
def after (s : Sim Float) : Nat → Sim Float
  | 0 => (s.start .empty).sim
  | k + 1 => ((s.after k).advance .empty).sim

theorem running_after (hs : s.Sound) (hf : s.Fresh) (k : Nat) :
    (s.after k).Running ∧ s.Continues (s.after k) := by
  induction k with
  | zero =>
    have hok := hf.fault_start hs (b := .empty) rfl
    have hnext := (hf.start hs (b := .empty)).resolve_right fun hbad => hbad.1 hok
    exact ⟨hnext.2, s.continues_start .empty⟩
  | succ k ih =>
    obtain ⟨hrun, hcont⟩ := ih
    have hsound := hs.continues hcont
    have hok := hrun.fault_advance hsound (b := .empty) rfl
    have hnext := (hrun.advance hsound (b := .empty)).resolve_right fun hbad => hbad.1 hok
    exact ⟨hnext.2, hcont.trans ((s.after k).continues_advance .empty)⟩

end Sim

/-- **Every model has a course.** -/
theorem Compiled.exists_course {d : Definition} {names : Names}
    {found : List (String × Contribution)} {m : Model Float} (h : Compiled d names found m)
    (spec : Timespec Float) : ∃ ρ, d.Course spec ρ := by
  let s : Sim Float := .create 0 m.name m spec 1
  have hs : s.Sound := Sim.sound_create h.sound ..
  have hf : s.Fresh := Sim.fresh_create ..
  have hempty : ∀ id, Board.Unpinned (.empty : Board Float) id := fun id n => rfl
  -- the course is where the simulation itself would come to if its end did not stop it
  refine ⟨fun k => (s.after k).state, ?_, ?_⟩
  · exact Sim.begins_start h (hempty _) hf.time (fun _ hn => Sim.bare_create hn)
      (hf.fault_start hs rfl)
  · intro k
    obtain ⟨hrun, hcont⟩ := Sim.running_after hs hf k
    have hsound := hs.continues hcont
    have hok := hrun.fault_advance hsound (b := .empty) rfl
    have hm : Compiled d names found (s.after k).model := by rwa [hcont.model]
    have hnext := Sim.follows_advance hm (hempty _) hrun.settled hok
    rwa [hcont.spec] at hnext

namespace Sim

/-! ## Simulations on course -/

variable {d : Definition} {names : Names} {found : List (String × Contribution)} {m : Model Float}
  {s s₀ : Sim Float} {b b₀ : Board Float} {spec : Timespec Float} {ρ : Nat → State}
  {fuel : Nat} {target : Float} {r : Reached Float} {log : Log Float}

/-- A simulation whose state is the one that a course gives for its step, on a board that is open
and says nothing about it. Before its start it has nothing but the time. -/
structure OnCourse (m : Model Float) (spec : Timespec Float) (ρ : Nat → State) (s : Sim Float)
    (b : Board Float) : Prop where
  model : s.model = m
  spec : s.spec = spec
  sound : s.Sound
  alive : s.Alive
  remaining : b.remaining = none
  unpinned : b.Unpinned s.id
  bare : s.phase = .fresh → ∀ n, n ≠ timeName → s.values[n]? = none
  begun : s.phase ≠ .fresh → s.state = ρ s.step

theorem OnCourse.start (h : Compiled d names found m) (hρ : d.Course spec ρ)
    (hs : s.OnCourse m spec ρ b) (hp : s.phase = .fresh) :
    (s.start b).fault = none ∧ (s.start b).sim.OnCourse m spec ρ (s.start b).board ∧
      (s.start b).sim.phase ≠ .fresh := by
  have hf := hs.alive.fresh hp
  have hok := hf.fault_start hs.sound hs.remaining
  have hrun := ((hf.start hs.sound (b := b)).resolve_right fun hbad => hbad.1 hok).2
  have hcont := s.continues_start b
  have hstep : (s.start b).sim.step = 0 := by
    obtain ⟨u, v, _, _, hsim, _⟩ := start_ok hs.sound.model hok
    rw [hsim]
    exact hf.step
  have hbegins : d.Begins spec (s.start b).sim.state := by
    have hm : Compiled d names found s.model := by rwa [hs.model]
    have hbegins := begins_start hm hs.unpinned hf.time (hs.bare hp) hok
    rwa [hs.spec] at hbegins
  rw [(s.spent_start b).eq_of_running hs.remaining]
  refine ⟨hok, ?_, hrun.begun⟩
  exact {
    model := hcont.model.trans hs.model
    spec := hcont.spec.trans hs.spec
    sound := hs.sound.continues hcont
    alive := Or.inr hrun
    remaining := hs.remaining
    unpinned := by rw [hcont.id]; exact hs.unpinned
    bare := fun hp => absurd hp hrun.begun
    begun := fun _ => by rw [hstep]; exact h.begins_unique hbegins hρ.first }

theorem OnCourse.advance (h : Compiled d names found m) (hρ : d.Course spec ρ)
    (hs : s.OnCourse m spec ρ b) (hp : s.phase ≠ .fresh) :
    (s.advance b).fault = none ∧ (s.advance b).sim.OnCourse m spec ρ (s.advance b).board ∧
      (s.advance b).sim.phase ≠ .fresh := by
  have hrun := hs.alive.running hp
  have hok := hrun.fault_advance hs.sound hs.remaining
  have hrun' := ((hrun.advance hs.sound (b := b)).resolve_right fun hbad => hbad.1 hok).2
  have hcont := s.continues_advance b
  have hfollows : d.Follows spec (ρ s.step) (s.advance b).sim.state := by
    have hm : Compiled d names found s.model := by rwa [hs.model]
    have hfollows := follows_advance hm hs.unpinned hrun.settled hok
    rwa [hs.spec, hs.begun hp] at hfollows
  rw [(s.spent_advance b).eq_of_running hs.remaining]
  refine ⟨hok, ?_, hrun'.begun⟩
  exact {
    model := hcont.model.trans hs.model
    spec := hcont.spec.trans hs.spec
    sound := hs.sound.continues hcont
    alive := Or.inr hrun'
    remaining := hs.remaining
    unpinned := by rw [hcont.id]; exact hs.unpinned
    bare := fun hp => absurd hp hrun'.begun
    begun := by
      intro _
      rw [step_advance hs.sound hok]
      exact h.follows_unique hfollows (hρ.next s.step) }

/-- **A run stays on course.** -/
theorem OnCourse.runTo (h : Compiled d names found m) (hρ : d.Course spec ρ)
    (hs : s.OnCourse m spec ρ b) (hr : s.runTo fuel target b = some r) :
    r.fault = none ∧ r.sim.OnCourse m spec ρ r.board ∧ r.sim.phase ≠ .fresh := by
  refine runTo_induction (P := fun t b => t.OnCourse m spec ρ b ∧ t.phase ≠ .fresh)
    (Q := fun r => r.fault = none ∧ r.sim.OnCourse m spec ρ r.board ∧ r.sim.phase ≠ .fresh)
    ?still ?stuck ?start ?begun ?rest ?finish ?step ?halt hr
  case still => exact fun hc => ⟨rfl, hs, by rw [hc]; exact nofun⟩
  case stuck => exact fun hp hfault => absurd (hs.start h hρ hp).1 hfault
  case start => exact fun hp _ => (hs.start h hρ hp).2
  case begun => exact fun hp => ⟨hs, hp⟩
  case rest => exact fun t b ht _ => ⟨rfl, ht⟩
  case finish =>
    intro t b ht _
    have hrun := ht.1.alive.running ht.2
    exact ⟨rfl, { ht.1 with
      sound := ⟨ht.1.sound.model, ht.1.sound.names⟩
      alive := Or.inr ⟨nofun, hrun.settled.congr rfl rfl, hrun.rows⟩
      bare := nofun
      begun := fun _ => ht.1.begun ht.2 }, nofun⟩
  case step => exact fun t b ht _ => (ht.1.advance h hρ ht.2).2
  case halt => exact fun t b ht hfault => absurd (ht.1.advance h hρ ht.2).1 hfault

/-- Every state that a run goes through is on course. -/
theorem OnCourse.forall_trail (h : Compiled d names found m) (hρ : d.Course spec ρ)
    (hs : s.OnCourse m spec ρ b) : ∀ t ∈ s.trail fuel target b, t.state = ρ t.step := by
  intro t ht
  obtain ⟨_, hon, hp⟩ :=
    Sim.forall_trail (P := fun t b => t.OnCourse m spec ρ b ∧ t.phase ≠ .fresh)
      (fun hp _ => (hs.start h hρ hp).2) (fun hp => ⟨hs, hp⟩)
      (fun t b ht _ => (ht.1.advance h hρ ht.2).2) t ht
  exact hon.begun hp

/-! ## What leaves a simulation on course -/

/-- A call that sets no variable of a simulation, and does not close the board. -/
def Call.LeavesAlone (id : SimId) : Call Float → Prop
  | run _ => True
  | set _ _ => False
  | request (.get _ _ _) | request (.forget _) => True
  | request (.set sim _ _) => sim ≠ id
  | request .close => False

/-- Nobody set a variable of a simulation, and nobody closed the board. -/
def Log.LeavesAlone (id : SimId) (log : Log Float) : Prop := ∀ e ∈ log, e.1.LeavesAlone id

theorem unpinned_serve {id : SimId} {q : Request Float} (hb : b.remaining = none)
    (hpin : b.Unpinned id) (hq : (Call.request q).LeavesAlone id) :
    (b.serve q).2.remaining = none ∧ (b.serve q).2.Unpinned id := by
  rw [Board.serve, if_pos (Board.isOpen_of_remaining_none hb)]
  have htick : b.tick = b := by rw [Board.tick, hb, Option.map_none, ← hb]
  rw [htick]
  cases q with
  | get _ _ _ => exact ⟨hb, hpin⟩
  | set sim name x =>
    refine ⟨hb, ?_⟩
    intro n
    show (b.pin sim name x).pinned? id n = none
    rw [Board.pinned?_pin, if_neg fun he => hq he.1, hpin n]
  | forget sim =>
    refine ⟨hb, ?_⟩
    intro n
    show (b.unpin sim).pinned? id n = none
    rw [Board.pinned?_unpin]
    split
    · rfl
    · exact hpin n
  | close => exact hq.elim

theorem OnCourse.performs {c : Call Float} (h : Compiled d names found m) (hρ : d.Course spec ρ)
    (hs : s.OnCourse m spec ρ b) (hc : Performs s b c r) (hcall : c.LeavesAlone s.id) :
    r.sim.OnCourse m spec ρ r.board := by
  cases hc with
  | run hr => exact (hs.runTo h hρ hr).2.1
  | set name x => exact hcall.elim
  | request q =>
    obtain ⟨hopen, hpin⟩ := unpinned_serve hs.remaining hs.unpinned hcall
    exact { hs with remaining := hopen, unpinned := hpin }

/-- **While nobody sets its variables a simulation stays on course.** -/
theorem History.onCourse (h : Compiled d names found m) (hρ : d.Course spec ρ)
    (hs : s₀.OnCourse m spec ρ b₀) (hist : History s₀ b₀ log s b) (hlog : log.LeavesAlone s₀.id) :
    s.OnCourse m spec ρ b := by
  induction hist with
  | nil => exact hs
  | snoc hbefore hc ih =>
    have hon := ih fun e he => hlog e (List.mem_append_left _ he)
    refine hon.performs h hρ hc ?_
    rw [hbefore.continues.id]
    exact hlog _ (List.mem_append_right _ (List.mem_singleton.mpr rfl))

end Sim

/-! ## Simulations of a text -/

namespace Project

open Sim

variable {text : String} {p : Project} {id : SimId} {name label : String}
  {spec : Timespec Float} {s₀ : Sim Float}

/-- **A simulation of a text is at each step in the state that the statements give for it.** The
definition that is simulated has one course. Whatever runs were made before, as long as nobody has
set a variable of the simulation and the board is open, each state that a run goes through is that
of the course after as many steps, also while the run does not come to an end; if it does, it got
through, and the state that it ends in is again that of the course. -/
theorem follows_course (hp : ofText text = .ok p)
    (hs : p.instantiateWith id name label spec = .ok s₀) :
    ∃ ds d ρ, (File.parse text).definitions = .ok ds ∧
      ds.find? (fun d => d.name = name) = some d ∧
      d.Course spec ρ ∧ (∀ ρ', d.Course spec ρ' → ρ' = ρ) ∧
      ∀ b₀ log s b, b₀.remaining = none → b₀.Unpinned id → log.LeavesAlone id →
        History s₀ b₀ log s b → ∀ fuel target,
          (∀ t ∈ s.trail fuel target b, t.state = ρ t.step) ∧
            ∀ r, s.runTo fuel target b = some r → r.fault = none ∧ r.sim.state = ρ r.sim.step := by
  obtain ⟨m, hm, _, rfl⟩ := eq_of_instantiateWith hs
  obtain ⟨ds, d, names, found, hds, hd, h⟩ := compiled_of_runnable hp hm
  obtain ⟨ρ, hρ⟩ := h.exists_course spec
  refine ⟨ds, d, ρ, hds, hd, hρ, fun ρ' hρ' => h.course_unique hρ' hρ, ?_⟩
  intro b₀ log s b hopen hpin hlog hist fuel target
  have hcreate : (create id label m spec spec.saveEvery).OnCourse m spec ρ b₀ :=
    { model := rfl
      spec := rfl
      sound := sound_create h.sound ..
      alive := Or.inl (fresh_create ..)
      remaining := hopen
      unpinned := hpin
      bare := fun _ _ hn => bare_create hn
      begun := fun hp => absurd rfl hp }
  have hon := hist.onCourse h hρ hcreate hlog
  refine ⟨hon.forall_trail h hρ, fun r hr => ?_⟩
  obtain ⟨hok, hon', hp'⟩ := hon.runTo h hρ hr
  exact ⟨hok, hon'.begun hp'⟩

/-- The level starts and grows for a step. -/
def growthStep : Option (Project × Sim Float × Reached Float) := do
  let (p, s) ← growthSim oneStep
  let r ← s.runTo 5 1 .empty
  if r.sim.step = 1 ∧ (r.sim.values["level"]?).map Float.toBits = some (Float.toBits 3) then
    return (p, s, r)
  else none

theorem follows_course_growth : ∃ p s₀, ∃ d : Definition, ∃ ρ r x, ofText growth = .ok p ∧
    p.instantiateWith 0 "main" "main" oneStep = .ok s₀ ∧ d.Course oneStep ρ ∧
    s₀.runTo 5 1 .empty = some r ∧ r.sim.state = ρ 1 ∧ ρ 1 "level" = some x ∧
    x.toBits = Float.toBits 3 := by
  have hsome : growthStep.isSome = true := by decide +kernel
  obtain ⟨runs, hruns⟩ := Option.isSome_iff_exists.mp hsome
  obtain ⟨⟨p, s₀⟩, hsim, hruns⟩ := Option.bind_eq_some_iff.mp hruns
  obtain ⟨r, hr, hruns⟩ := Option.bind_eq_some_iff.mp hruns
  obtain ⟨⟨hstep, hlevel⟩, _⟩ := Option.ite_none_right_eq_some.mp hruns
  obtain ⟨hp, hs⟩ := of_trial hsim
  obtain ⟨ds, d, ρ, _, _, hρ, _, hall⟩ := follows_course hp hs
  obtain ⟨_, hend⟩ := hall .empty [] s₀ .empty rfl (fun _ => rfl) nofun .nil 5 1
  obtain ⟨_, hstate⟩ := hend r hr
  rw [hstep] at hstate
  obtain ⟨x, hx, hbits⟩ := Option.map_eq_some_iff.mp hlevel
  exact ⟨p, s₀, d, ρ, r, x, hp, hs, hρ, hr, hstate, by rw [← hstate]; exact hx, hbits⟩

end Project

end StockFlow
