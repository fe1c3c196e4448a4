import StockFlow.Proofs.Session.Operation

/-!
# Simulations of a session do not interfere

* `Session.Agree` — two sessions with the same simulation behind a handle, but for its number
* `Session.Agree.perform` — the same operation there gives the same answer in both
* `Session.Agree.other` — operations at other handles do not matter
* `Session.simulations_independent` — a simulation does what it would do alone
-/

namespace StockFlow

namespace Session

variable {S S' T : Session} {handle : String} {fuel : Nat} {p : Project}

/-- **Two sessions that agree behind a handle.** Either there is no simulation in both, or it is in
the same state but for its number, and the same values are pinned for it. -/
structure Agree (S T : Session) (handle : String) : Prop where
  project : T.project = S.project
  sims : (S.sim? handle = none ∧ T.sim? handle = none) ∨
    ∃ s i, S.sim? handle = some s ∧ T.sim? handle = some (s.renumbered i) ∧
      S.board.SameFor s.id T.board i

/-! ## Operations at other handles -/

/-- **Operations at other handles do not matter.** -/
theorem Agree.other {k : String} (h : S.Agree T handle) (hS : S.Tidy) (heffect : Effect S k S')
    (he : k ≠ handle) : S'.Agree T handle := by
  obtain ⟨hsim, hpinned⟩ := heffect.leaves hS he
  refine ⟨h.project.trans heffect.project.symm, ?_⟩
  rw [hsim]
  rcases h.sims with hnone | ⟨s, i, hs, ht, hsame⟩
  · exact Or.inl hnone
  · have hpinned' : ∀ name, S'.board.pinned? s.id name = T.board.pinned? i name := by
      intro name
      rw [hpinned s hs name, hsame.pinned]
    exact Or.inr ⟨s, i, hs, ht, (heffect.tidy hS).running, hsame.running', hpinned'⟩

/-! ## Starting -/

theorem instantiateWith_renumbered (p : Project) (i j : SimId) (model label : String)
    (spec : Timespec Float) : p.instantiateWith j model label spec =
      (p.instantiateWith i model label spec).map fun s => s.renumbered j := by
  unfold Project.instantiateWith
  cases p.runnable model with
  | error fault => rfl
  | ok m =>
    show (spec.check.mapError _ >>= _) = Except.map _ (spec.check.mapError _ >>= _)
    cases spec.check.mapError ModelFault.timespec with
    | error fault => rfl
    | ok spec => rfl

theorem instantiate_renumbered (p : Project) (i j : SimId) (model label : String) :
    p.instantiate j model label =
      (p.instantiate i model label).map fun s => s.renumbered j := by
  unfold Project.instantiate
  cases p.runnable model with
  | error fault => rfl
  | ok m =>
    dsimp only [bind, Except.bind]
    cases m.timespec with
    | none => rfl
    | some spec => exact instantiateWith_renumbered p i j model label spec

/-- Two sessions start the same simulation, or both do not. -/
theorem instantiate_cases (S T : Session) (p : Project) (k model label : String)
    (spec : Option (Timespec Float)) :
    (∃ fault, S.instantiate p k model label spec = .error fault ∧
        T.instantiate p k model label spec = .error fault) ∨
      ∃ s, s.id = S.nextId ∧ S.instantiate p k model label spec = .ok (S.install k s) ∧
        T.instantiate p k model label spec = .ok (T.install k (s.renumbered T.nextId)) := by
  cases spec with
  | some spec =>
    simp only [Session.instantiate, instantiateWith_renumbered p S.nextId T.nextId]
    cases hs : p.instantiateWith S.nextId model label spec with
    | error fault => exact Or.inl ⟨fault, rfl, rfl⟩
    | ok s => exact Or.inr ⟨s, id_of_instantiateWith hs, rfl, rfl⟩
  | none =>
    simp only [Session.instantiate, instantiate_renumbered p S.nextId T.nextId]
    cases hs : p.instantiate S.nextId model label with
    | error fault => exact Or.inl ⟨fault, rfl, rfl⟩
    | ok s => exact Or.inr ⟨s, id_of_instantiate hs, rfl, rfl⟩

/-- New simulations agree: nothing is pinned for them yet. -/
theorem agree_install {k : String} {s : Sim Float} (hS : S.Tidy) (hT : T.Tidy)
    (hp : T.project = S.project) (number : s.id = S.nextId) :
    (S.install k s).Agree (T.install k (s.renumbered T.nextId)) k := by
  refine ⟨?_, Or.inr ⟨s, T.nextId, ?_, ?_, (hS.drop k).running, (hT.drop k).running, ?_⟩⟩
  · exact (T.project_drop k).trans (hp.trans (S.project_drop k).symm)
  · rw [sim?_install, if_pos rfl]
  · rw [sim?_install, if_pos rfl]
  · intro name
    show (S.drop k).board.pinned? s.id name = (T.drop k).board.pinned? T.nextId name
    rw [(hS.drop k).unused s.id (by rw [number, nextId_drop]),
      (hT.drop k).unused T.nextId (by rw [nextId_drop])]

/-- A simulation that is started agrees with one that is started elsewhere, whatever stood behind
the handles before. -/
theorem agree_started {k model label : String} {spec : Option (Timespec Float)} (hS : S.Tidy)
    (hT : T.Tidy) (hp : T.project = S.project)
    (h : S.perform fuel (.instantiate k model label spec) = some (.started (.ok ()), S')) :
    ∃ T', T.perform fuel (.instantiate k model label spec) = some (.started (.ok ()), T') ∧
      S'.Agree T' k := by
  unfold Session.perform at h ⊢
  rw [hp]
  cases hproject : S.project with
  | none =>
    simp only [hproject] at h
    cases h
  | some p =>
    simp only [hproject] at h
    rcases instantiate_cases S T p k model label spec with ⟨fault, hs, ht⟩ | ⟨s, hnumber, hs, ht⟩
    · simp only [hs] at h
      cases h
    · simp only [hs] at h
      cases h
      simp only [ht]
      exact ⟨_, rfl, agree_install hS hT hp hnumber⟩

/-! ## Operations at the handle -/

theorem agree_accept {r r' : Reached Float} {i : SimId} (hp : T.project = S.project)
    (hsim : r'.sim = r.sim.renumbered i) (hsame : r.board.SameFor r.sim.id r'.board i) :
    (S.accept handle r).2.Agree (T.accept handle r').2 handle := by
  refine ⟨hp, Or.inr ⟨r.sim, i, ?_, ?_, hsame⟩⟩
  · rw [sim?_accept, if_pos rfl]
  · rw [sim?_accept, if_pos rfl, hsim]

/-- Two sessions answer the same and agree behind a handle after it, or neither answers. -/
def Tandem (handle : String) (x y : Option (Answer × Session)) : Prop :=
  (x = none ∧ y = none) ∨
    ∃ a S' T', x = some (a, S') ∧ y = some (a, T') ∧ S'.Agree T' handle

theorem Agree.onSim {f g : Sim Float → Option (Answer × Session)} (h : S.Agree T handle)
    (hfg : ∀ s i, S.board.SameFor s.id T.board i → Tandem handle (f s) (g (s.renumbered i))) :
    Tandem handle (S.onSim handle f) (T.onSim handle g) := by
  unfold Session.onSim
  rcases h.sims with ⟨hs, ht⟩ | ⟨s, i, hs, ht, hsame⟩
  · rw [hs, ht]
    exact Or.inr ⟨.noSim, S, T, rfl, rfl, h⟩
  · rw [hs, ht]
    exact hfg s i hsame

theorem Agree.tandem_run {s : Sim Float} {i : SimId} (h : S.Agree T handle)
    (hsame : S.board.SameFor s.id T.board i) (target : Float) :
    Tandem handle ((S.run fuel handle s target).map fun r => (.done r.1, r.2))
      ((T.run fuel handle (s.renumbered i) target).map fun r => (.done r.1, r.2)) := by
  simp only [run, Sim.runTo_renumbered hsame]
  cases hr : s.runTo fuel target S.board with
  | none => exact Or.inl ⟨rfl, rfl⟩
  | some r =>
    have hboard := (Sim.spent_runTo hr).eq_of_running hsame.running
    have hid := (Sim.continues_runTo hr).id
    refine Or.inr ⟨.done r.fault, _, _, rfl, rfl, agree_accept h.project rfl ?_⟩
    show r.board.SameFor r.sim.id T.board i
    rwa [hboard, hid]

theorem Agree.tandem_setValue {s : Sim Float} {i : SimId} (h : S.Agree T handle)
    (hsame : S.board.SameFor s.id T.board i) (name : String) (x : Float) :
    Tandem handle
      (some (.done (S.setValue handle s name x).1, (S.setValue handle s name x).2))
      (some (.done (T.setValue handle (s.renumbered i) name x).1,
        (T.setValue handle (s.renumbered i) name x).2)) := by
  obtain ⟨hfault, hsim, hsame'⟩ := Sim.setValue_renumbered hsame name x
  have hid := (s.continues_setValue name x S.board).id
  refine Or.inr ⟨.done (s.setValue name x S.board).fault, _, _, rfl, ?_,
    agree_accept h.project hsim (by rwa [hid])⟩
  rw [← hfault]
  rfl

theorem Agree.drop (h : S.Agree T handle) : (S.drop handle).Agree (T.drop handle) handle := by
  refine ⟨?_, Or.inl ⟨?_, ?_⟩⟩
  · exact (T.project_drop handle).trans (h.project.trans (S.project_drop handle).symm)
  · exact (S.sim?_drop handle handle).trans (if_pos rfl)
  · exact (T.sim?_drop handle handle).trans (if_pos rfl)

theorem Agree.tandem_instantiate (h : S.Agree T handle) (hS : S.Tidy) (hT : T.Tidy)
    (model label : String) (spec : Option (Timespec Float)) :
    Tandem handle (S.perform fuel (.instantiate handle model label spec))
      (T.perform fuel (.instantiate handle model label spec)) := by
  unfold Session.perform
  rw [h.project]
  cases hp : S.project with
  | none => exact Or.inr ⟨_, S, T, rfl, rfl, h⟩
  | some p =>
    rcases instantiate_cases S T p handle model label spec with
      ⟨fault, hs, ht⟩ | ⟨s, hnumber, hs, ht⟩
    · simp only [hs, ht]
      exact Or.inr ⟨_, S, T, rfl, rfl, h⟩
    · simp only [hs, ht]
      exact Or.inr ⟨_, _, _, rfl, rfl, agree_install hS hT h.project hnumber⟩

/-- **The same operation at the handle gives the same answer in both sessions,** and they agree
after it. -/
theorem Agree.perform {op : Operation} (h : S.Agree T op.handle) (hS : S.Tidy) (hT : T.Tidy) :
    Tandem op.handle (S.perform fuel op) (T.perform fuel op) := by
  cases op with
  | instantiate k model label spec => exact h.tandem_instantiate hS hT model label spec
  | run k target => exact h.onSim fun s i hsame => h.tandem_run hsame (target.getD s.spec.stop)
  | set k name x => exact h.onSim fun s i hsame => h.tandem_setValue hsame name x
  | value k name | series k name | report k =>
    exact h.onSim fun s i hsame => Or.inr ⟨_, S, T, rfl, rfl, h⟩
  | drop k => exact h.onSim fun s i hsame => Or.inr ⟨_, _, _, rfl, rfl, h.drop⟩

/-! ## Whole sessions -/

/-- The answers to the operations at a handle. -/
def answersAt (handle : String) (ops : List Operation) (as : List Answer) : List Answer :=
  ((ops.zip as).filter fun e => e.1.handle = handle).map Prod.snd

theorem answersAt_cons_own {op : Operation} {ops : List Operation} {a : Answer} {as : List Answer}
    (h : op.handle = handle) :
    answersAt handle (op :: ops) (a :: as) = a :: answersAt handle ops as := by
  simp [answersAt, h]

theorem answersAt_cons_other {op : Operation} {ops : List Operation} {a : Answer} {as : List Answer}
    (h : op.handle ≠ handle) :
    answersAt handle (op :: ops) (a :: as) = answersAt handle ops as := by
  simp [answersAt, h]

/-- **The operations at the handle, done alone, give the same answers** as among all others, and the
sessions agree after them. -/
theorem Agree.performAll {ops : List Operation} {as : List Answer} (h : S.Agree T handle)
    (hS : S.Tidy) (hT : T.Tidy) (hall : Session.performAll fuel ops S = some (as, S')) :
    ∃ T', Session.performAll fuel (ops.filter fun op => op.handle = handle) T =
        some (answersAt handle ops as, T') ∧ S'.Agree T' handle ∧ S'.Tidy ∧ T'.Tidy := by
  induction ops generalizing S T as with
  | nil =>
    cases hall
    exact ⟨T, rfl, h, hS, hT⟩
  | cons op ops ih =>
    obtain ⟨a, S₁, as', hop, hops, rfl⟩ := performAll_cons_eq_some hall
    have hS₁ := (effect_perform hop).tidy hS
    by_cases he : op.handle = handle
    · subst he
      rcases h.perform hS hT with ⟨hnone, _⟩ | ⟨a', S₂, T₁, hs, ht, hagree⟩
      · rw [hop] at hnone
        cases hnone
      · rw [hop] at hs
        cases hs
        obtain ⟨T', hown, hrest⟩ := ih hagree hS₁ ((effect_perform ht).tidy hT) hops
        refine ⟨T', ?_, hrest⟩
        rw [answersAt_cons_own rfl, List.filter_cons_of_pos (by simp), Session.performAll, ht]
        simp only [Option.bind_some, hown, Option.map_some]
    · obtain ⟨T', hown, hrest⟩ := ih (h.other hS (effect_perform hop) he) hS₁ hT hops
      refine ⟨T', ?_, hrest⟩
      rw [answersAt_cons_other he, List.filter_cons_of_neg (by simpa using he)]
      exact hown

/-- **Simulations do not interfere.** Started among others and used among them, a simulation gives
the answers that it gives when it is started and used alone in a new session of the same project. It
is then in the same state, the same values are pinned for it, and whatever is done with it next gets
the same answer or takes as long. -/
theorem simulations_independent {before after : List Operation} {as₀ as : List Answer}
    {S₀ S₁ S₂ : Session} {model label : String} {spec : Option (Timespec Float)}
    (hbefore : Session.performAll fuel before (ofProject p) = some (as₀, S₀))
    (hstart : S₀.perform fuel (.instantiate handle model label spec) =
      some (.started (.ok ()), S₁))
    (hafter : Session.performAll fuel after S₁ = some (as, S₂)) :
    ∃ T₁ T₂, (ofProject p).perform fuel (.instantiate handle model label spec) =
        some (.started (.ok ()), T₁) ∧
      Session.performAll fuel (after.filter fun op => op.handle = handle) T₁ =
        some (answersAt handle after as, T₂) ∧
      S₂.Agree T₂ handle ∧
      ∀ op, op.handle = handle →
        (S₂.perform fuel op).map Prod.fst = (T₂.perform fuel op).map Prod.fst := by
  have hnew := tidy_ofProject p
  obtain ⟨hS₀, hproject⟩ := hnew.performAll hbefore
  have hS₁ := (effect_perform hstart).tidy hS₀
  obtain ⟨T₁, hT, hagree⟩ := agree_started hS₀ hnew hproject.symm hstart
  have hT₁ := (effect_perform hT).tidy hnew
  obtain ⟨T₂, hown, hagree₂, hS₂, hT₂⟩ := hagree.performAll hS₁ hT₁ hafter
  refine ⟨T₁, T₂, hT, hown, hagree₂, ?_⟩
  rintro op rfl
  rcases hagree₂.perform hS₂ hT₂ with ⟨hs, ht⟩ | ⟨a, S', T', hs, ht, _⟩
  · rw [hs, ht]
  · rw [hs, ht]
    rfl

/-- Another simulation is started, set and run. -/
def otherBefore : List Operation :=
  [.instantiate "other" "main" "main" (some Project.oneStep), .set "other" "rate" 7,
    .run "other" (some 0)]

/-- The simulation is set, the other one makes place for a third, and the simulation is run. -/
def sharedAfter : List Operation :=
  [.set "own" "rate" 5, .instantiate "other" "main" "main" (some Project.oneStep),
    .run "own" none, .drop "other", .value "own" "rate"]

def sharedRuns : Option (Project × Session × Session × Session) := do
  let p ← (Project.ofText Project.growth).toOption
  let (_, S₀) ← Session.performAll 5 otherBefore (ofProject p)
  match S₀.perform 5 (.instantiate "own" "main" "main" (some Project.oneStep)) with
  | some (.started (.ok ()), S₁) =>
    let (_, S₂) ← Session.performAll 5 sharedAfter S₁
    return (p, S₀, S₁, S₂)
  | _ => none

theorem exists_sharedRuns : ∃ p as₀ S₀ S₁ as S₂, Project.ofText Project.growth = .ok p ∧
    Session.performAll 5 otherBefore (ofProject p) = some (as₀, S₀) ∧
    S₀.perform 5 (.instantiate "own" "main" "main" (some Project.oneStep)) =
      some (.started (.ok ()), S₁) ∧
    Session.performAll 5 sharedAfter S₁ = some (as, S₂) := by
  have hsome : sharedRuns.isSome = true := by decide +kernel
  obtain ⟨runs, hruns⟩ := Option.isSome_iff_exists.mp hsome
  obtain ⟨p, hp, hruns⟩ := Option.bind_eq_some_iff.mp hruns
  obtain ⟨⟨as₀, S₀⟩, hbefore, hruns⟩ := Option.bind_eq_some_iff.mp hruns
  dsimp only at hruns
  split at hruns
  · rename_i S₁ hstart
    obtain ⟨⟨as, S₂⟩, hafter, _⟩ := Option.bind_eq_some_iff.mp hruns
    exact ⟨p, as₀, S₀, S₁, as, S₂, Project.eq_ok_of_toOption hp, hbefore, hstart, hafter⟩
  · cases hruns

theorem simulations_independent_growth : ∃ p as₀ S₀ S₁ as S₂ T₁ T₂,
    Project.ofText Project.growth = .ok p ∧
    Session.performAll 5 otherBefore (ofProject p) = some (as₀, S₀) ∧
    S₀.perform 5 (.instantiate "own" "main" "main" (some Project.oneStep)) =
      some (.started (.ok ()), S₁) ∧
    Session.performAll 5 sharedAfter S₁ = some (as, S₂) ∧
    (ofProject p).perform 5 (.instantiate "own" "main" "main" (some Project.oneStep)) =
      some (.started (.ok ()), T₁) ∧
    Session.performAll 5 [.set "own" "rate" 5, .run "own" none, .value "own" "rate"] T₁ =
      some (answersAt "own" sharedAfter as, T₂) ∧
    S₂.Agree T₂ "own" := by
  obtain ⟨p, as₀, S₀, S₁, as, S₂, hp, hbefore, hstart, hafter⟩ := exists_sharedRuns
  obtain ⟨T₁, T₂, hT, hown, hagree, _⟩ := simulations_independent hbefore hstart hafter
  exact ⟨p, as₀, S₀, S₁, as, S₂, T₁, T₂, hp, hbefore, hstart, hafter, hT, hown, hagree⟩

end Session

end StockFlow
