import StockFlow.Session
import StockFlow.Proofs.Engine.Renumbered
import StockFlow.Proofs.Project

/-!
# What is done in a session

* `Operation`, `Answer` — what can be done with the simulations of a session, and what is answered
* `Session.perform`, `Session.performAll` — operations done one after the other
* `Session.Effect` — all that an operation can change
* `Session.Tidy` — no number is given twice, and nothing is pinned for a number that is not yet
  given
* `Session.Tidy.performAll` — operations keep sessions tidy
* `Session.Effect.leaves` — an operation leaves the simulations behind other handles alone
-/

namespace StockFlow

/-- What can be done with the simulations of a session. Each stands behind a handle. -/
inductive Operation where
  /-- A simulation of a model is started. One that stood behind the handle ends. -/
  | instantiate (handle model label : String) (spec : Option (Timespec Float))
  /-- A simulation is run to a time, or to its end. -/
  | run (handle : String) (target : Option Float)
  | set (handle name : String) (x : Float)
  | value (handle name : String)
  | series (handle name : String)
  | report (handle : String)
  | drop (handle : String)

/-- What is answered to an operation. -/
inductive Answer where
  | started (r : Except ModelFault Unit)
  /-- A run or a setting is over, with what stopped it if it did not get through. -/
  | done (fault : Option RunFault)
  | value (r : Except RunFault Float)
  | series (r : Except RunFault (List Float × List Float))
  | report (text : String)
  | dropped
  /-- The project is closed. -/
  | noProject
  /-- There is no simulation behind the handle. -/
  | noSim

/-- The handle that an operation is about. -/
def Operation.handle : Operation → String
  | instantiate handle _ _ _ | run handle _ | set handle _ _ | value handle _ | series handle _
  | report handle | drop handle => handle

namespace Session

/-! ## Operations -/

/-- Answers with the simulation behind a handle, if there is one. -/
def onSim (S : Session) (handle : String) (f : Sim Float → Option (Answer × Session)) :
    Option (Answer × Session) :=
  match S.sim? handle with
  | none => some (.noSim, S)
  | some s => f s

/-- **The answer to an operation and the session after it.** There is none if a run takes more than
`fuel` steps. -/
def perform (fuel : Nat) (S : Session) : Operation → Option (Answer × Session)
  | .instantiate handle model label spec =>
    match S.project with
    | none => some (.noProject, S)
    | some p =>
      match S.instantiate p handle model label spec with
      | .error fault => some (.started (.error fault), S)
      | .ok S' => some (.started (.ok ()), S')
  | .run handle target => S.onSim handle fun s =>
    (S.run fuel handle s (target.getD s.spec.stop)).map fun r => (.done r.1, r.2)
  | .set handle name x => S.onSim handle fun s =>
    let r := S.setValue handle s name x
    some (.done r.1, r.2)
  | .value handle name => S.onSim handle fun s => some (.value (s.value name), S)
  | .series handle name => S.onSim handle fun s => some (.series (s.series name), S)
  | .report handle => S.onSim handle fun s => some (.report s.report.tsv, S)
  | .drop handle => S.onSim handle fun _ => some (.dropped, S.drop handle)

/-- The answers to operations one after the other, and the session after them. -/
def performAll (fuel : Nat) : List Operation → Session → Option (List Answer × Session)
  | [], S => some ([], S)
  | op :: ops, S =>
    (S.perform fuel op).bind fun (a, S') =>
      (performAll fuel ops S').map fun (as, S'') => (a :: as, S'')

theorem performAll_cons_eq_some {fuel : Nat} {op : Operation} {ops : List Operation}
    {S S' : Session} {as : List Answer} (h : performAll fuel (op :: ops) S = some (as, S')) :
    ∃ a S₁ as', S.perform fuel op = some (a, S₁) ∧ performAll fuel ops S₁ = some (as', S') ∧
      as = a :: as' := by
  obtain ⟨⟨a, S₁⟩, hop, h⟩ := Option.bind_eq_some_iff.mp h
  obtain ⟨⟨as', S₂⟩, hops, h⟩ := Option.map_eq_some_iff.mp h
  cases h
  exact ⟨a, S₁, as', hop, hops, rfl⟩

/-! ## Sessions and their parts -/

variable {S S' : Session} {handle k : String} {s : Sim Float} {fuel : Nat}

theorem getElem?_insert_sims (m : Std.TreeMap String (Sim Float)) (k handle : String)
    (s : Sim Float) : (m.insert k s)[handle]? = if k = handle then some s else m[handle]? := by
  rw [Std.TreeMap.getElem?_insert]
  simp only [Std.LawfulEqCmp.compare_eq_iff_eq]

theorem sim?_accept (S : Session) (k handle : String) (r : Reached Float) :
    (S.accept k r).2.sim? handle = if k = handle then some r.sim else S.sim? handle :=
  getElem?_insert_sims ..

theorem sim?_drop (S : Session) (k handle : String) :
    (S.drop k).sim? handle = if k = handle then none else S.sim? handle := by
  unfold drop
  cases hk : S.sim? k with
  | some s =>
    show (S.sims.erase k)[handle]? = _
    rw [Std.TreeMap.getElem?_erase]
    simp only [Std.LawfulEqCmp.compare_eq_iff_eq]
    rfl
  | none =>
    by_cases he : k = handle
    · rw [if_pos he, ← he]
      exact hk
    · rw [if_neg he]

theorem sim?_install (S : Session) (k handle : String) (s : Sim Float) :
    (S.install k s).sim? handle = if k = handle then some s else S.sim? handle := by
  refine (getElem?_insert_sims ..).trans ?_
  by_cases he : k = handle
  · rw [if_pos he, if_pos he]
  · rw [if_neg he, if_neg he]
    exact (S.sim?_drop k handle).trans (if_neg he)

theorem board_drop (hb : S.board.remaining = none) : (S.drop k).board =
    match S.sim? k with
    | some s => S.board.unpin s.id
    | none => S.board := by
  unfold drop
  cases S.sim? k with
  | some s => exact Board.forget_of_running hb s.id
  | none => rfl

theorem nextId_drop (S : Session) (k : String) : (S.drop k).nextId = S.nextId := by
  unfold drop
  cases S.sim? k <;> rfl

theorem project_drop (S : Session) (k : String) : (S.drop k).project = S.project := by
  unfold drop
  cases S.sim? k <;> rfl

/-! ## What an operation can change -/

/-- All that an operation at a handle can change. -/
inductive Effect (S : Session) (k : String) : Session → Prop
  | none : Effect S k S
  /-- A simulation came to another state, and pinned a value at most. -/
  | accept {s : Sim Float} {r : Reached Float} (found : S.sim? k = some s)
      (continues : s.Continues r.sim)
      (board : S.board.remaining = none → r.board = S.board ∨
        ∃ name x, r.board = S.board.pin s.id name x) : Effect S k (S.accept k r).2
  | drop : Effect S k (S.drop k)
  | install {s : Sim Float} (number : s.id = S.nextId) : Effect S k (S.install k s)

theorem id_of_instantiateWith {p : Project} {i : SimId} {model label : String}
    {spec : Timespec Float} (h : p.instantiateWith i model label spec = .ok s) : s.id = i := by
  obtain ⟨_, _, _, rfl⟩ := Project.eq_of_instantiateWith h
  rfl

theorem id_of_instantiate {p : Project} {i : SimId} {model label : String}
    (h : p.instantiate i model label = .ok s) : s.id = i := by
  obtain ⟨m, _, hs⟩ := bind_eq_ok.mp h
  cases hspec : m.timespec with
  | none =>
    simp only [hspec] at hs
    cases hs
  | some spec =>
    simp only [hspec] at hs
    exact id_of_instantiateWith hs

/-- A simulation that is started has the next number. -/
theorem effect_instantiate {p : Project} {k model label : String}
    {spec : Option (Timespec Float)} (h : S.instantiate p k model label spec = .ok S') :
    Effect S k S' := by
  cases spec with
  | some spec =>
    obtain ⟨s, hs, h⟩ := bind_eq_ok.mp h
    cases h
    exact .install (id_of_instantiateWith hs)
  | none =>
    obtain ⟨s, hs, h⟩ := bind_eq_ok.mp h
    cases h
    exact .install (id_of_instantiate hs)

/-- A run writes nothing on the board. -/
theorem effect_run {r : Reached Float} {target : Float} (found : S.sim? k = some s)
    (h : s.runTo fuel target S.board = some r) : Effect S k (S.accept k r).2 :=
  .accept found (Sim.continues_runTo h) fun hb =>
    Or.inl ((Sim.spent_runTo h).eq_of_running hb)

/-- A setting pins one value at most. -/
theorem effect_setValue (found : S.sim? k = some s) (name : String) (x : Float) :
    Effect S k (S.accept k (s.setValue name x S.board)).2 := by
  refine .accept found (s.continues_setValue name x S.board) fun hb => ?_
  rcases s.setValue_cases name x S.board with ⟨e, he⟩ | ⟨_, _, he⟩
  · exact Or.inl (by rw [he])
  · exact Or.inr ⟨name, x, by rw [he, Board.tick_of_running hb]⟩

theorem effect_onSim {f : Sim Float → Option (Answer × Session)} {a : Answer}
    (h : S.onSim k f = some (a, S'))
    (hf : ∀ s, S.sim? k = some s → f s = some (a, S') → Effect S k S') : Effect S k S' := by
  unfold onSim at h
  cases hs : S.sim? k with
  | none =>
    simp only [hs] at h
    cases h
    exact .none
  | some s =>
    simp only [hs] at h
    exact hf s hs h

theorem effect_perform {op : Operation} {a : Answer} (h : S.perform fuel op = some (a, S')) :
    Effect S op.handle S' := by
  cases op with
  | instantiate k model label spec =>
    unfold perform at h
    cases hp : S.project with
    | none =>
      simp only [hp] at h
      cases h
      exact .none
    | some p =>
      simp only [hp] at h
      cases hi : S.instantiate p k model label spec with
      | error fault =>
        simp only [hi] at h
        cases h
        exact .none
      | ok S₁ =>
        simp only [hi] at h
        cases h
        exact effect_instantiate hi
  | run k target =>
    refine effect_onSim h fun s hs h => ?_
    obtain ⟨r, hr, h⟩ := Option.map_eq_some_iff.mp h
    cases h
    obtain ⟨r', hr', rfl⟩ := Option.map_eq_some_iff.mp hr
    exact effect_run hs hr'
  | set k name x =>
    refine effect_onSim h fun s hs h => ?_
    cases h
    exact effect_setValue hs name x
  | value k _ | series k _ | report k =>
    refine effect_onSim h fun s hs h => ?_
    cases h
    exact .none
  | drop k =>
    refine effect_onSim h fun s hs h => ?_
    cases h
    exact .drop

/-! ## Tidy sessions -/

/-- Nobody closed the board, no number is given twice, and nothing is pinned for a number that is
not yet given. -/
structure Tidy (S : Session) : Prop where
  running : S.board.remaining = none
  given : ∀ {handle s}, S.sim? handle = some s → s.id < S.nextId
  distinct : ∀ {handle handle' s s'}, S.sim? handle = some s → S.sim? handle' = some s' →
    s.id = s'.id → handle = handle'
  unused : ∀ i, S.nextId ≤ i → ∀ name, S.board.pinned? i name = none

theorem tidy_ofProject (p : Project) : (ofProject p).Tidy where
  running := rfl
  given := nofun
  distinct := nofun
  unused := fun _ _ _ => rfl

theorem Tidy.drop (h : S.Tidy) (k : String) : (S.drop k).Tidy := by
  have hsim : ∀ {handle s}, (S.drop k).sim? handle = some s → S.sim? handle = some s := by
    intro handle s hs
    rw [sim?_drop] at hs
    by_cases he : k = handle
    · rw [if_pos he] at hs
      cases hs
    · rwa [if_neg he] at hs
  refine ⟨?running, ?given, ?distinct, ?unused⟩
  case running =>
    rw [board_drop h.running]
    cases S.sim? k <;> exact h.running
  case given =>
    intro handle s hs
    rw [nextId_drop]
    exact h.given (hsim hs)
  case distinct =>
    intro handle handle' s s' hs hs'
    exact h.distinct (hsim hs) (hsim hs')
  case unused =>
    intro i hi name
    rw [nextId_drop] at hi
    rw [board_drop h.running]
    cases S.sim? k with
    | none => exact h.unused i hi name
    | some s => simp only [Board.pinned?_unpin, h.unused i hi name, ite_self]

theorem Tidy.install (h : S.Tidy) (k : String) (number : s.id = S.nextId) :
    (S.install k s).Tidy := by
  have hdrop := h.drop k
  have hother : ∀ {handle s'}, (S.install k s).sim? handle = some s' → k ≠ handle →
      S.sim? handle = some s' := by
    intro handle s' hs' he
    rwa [sim?_install, if_neg he] at hs'
  have hown : ∀ {s'}, (S.install k s).sim? k = some s' → s'.id = S.nextId := by
    intro s' hs'
    rw [sim?_install, if_pos rfl] at hs'
    cases hs'
    exact number
  refine ⟨hdrop.running, ?given, ?distinct, ?unused⟩
  case given =>
    intro handle s' hs'
    show s'.id < (S.drop k).nextId + 1
    rw [nextId_drop]
    by_cases he : k = handle
    · subst he
      rw [hown hs']
      exact Nat.lt_succ_self _
    · exact Nat.lt_succ_of_lt (h.given (hother hs' he))
  case distinct =>
    intro handle handle' s₁ s₂ hs₁ hs₂ hid
    -- the new number is above all that were given, so no other simulation has it
    by_cases he₁ : k = handle
    · by_cases he₂ : k = handle'
      · exact he₁.symm.trans he₂
      · subst he₁
        have hlt := h.given (hother hs₂ he₂)
        rw [← hid, hown hs₁] at hlt
        exact absurd hlt (Nat.lt_irrefl _)
    · by_cases he₂ : k = handle'
      · subst he₂
        have hlt := h.given (hother hs₁ he₁)
        rw [hid, hown hs₂] at hlt
        exact absurd hlt (Nat.lt_irrefl _)
      · exact h.distinct (hother hs₁ he₁) (hother hs₂ he₂) hid
  case unused =>
    intro i hi name
    refine hdrop.unused i ?_ name
    exact Nat.le_trans (Nat.le_succ _) hi

theorem Tidy.accept (h : S.Tidy) {r : Reached Float} (found : S.sim? k = some s)
    (continues : s.Continues r.sim) (board : r.board = S.board ∨
      ∃ name x, r.board = S.board.pin s.id name x) : (S.accept k r).2.Tidy := by
  have hsim : ∀ {handle s'}, (S.accept k r).2.sim? handle = some s' →
      ∃ s₀, S.sim? handle = some s₀ ∧ s'.id = s₀.id := by
    intro handle s' hs'
    rw [sim?_accept] at hs'
    by_cases he : k = handle
    · rw [if_pos he] at hs'
      cases hs'
      exact ⟨s, he ▸ found, continues.id⟩
    · rw [if_neg he] at hs'
      exact ⟨s', hs', rfl⟩
  refine ⟨?running, ?given, ?distinct, ?unused⟩
  case running =>
    show r.board.remaining = none
    rcases board with hb | ⟨_, _, hb⟩ <;> (rw [hb]; exact h.running)
  case given =>
    intro handle s' hs'
    obtain ⟨s₀, hs₀, hid⟩ := hsim hs'
    rw [hid]
    exact h.given hs₀
  case distinct =>
    intro handle handle' s₁ s₂ hs₁ hs₂ he
    obtain ⟨t₁, ht₁, hid₁⟩ := hsim hs₁
    obtain ⟨t₂, ht₂, hid₂⟩ := hsim hs₂
    exact h.distinct ht₁ ht₂ (hid₁.symm.trans (he.trans hid₂))
  case unused =>
    intro i hi name
    show r.board.pinned? i name = none
    rcases board with hb | ⟨_, _, hb⟩
    · rw [hb]
      exact h.unused i hi name
    · have hne : s.id ≠ i := Nat.ne_of_lt (Nat.lt_of_lt_of_le (h.given found) hi)
      rw [hb, Board.pinned?_pin, if_neg fun hboth => hne hboth.1]
      exact h.unused i hi name

theorem Effect.tidy (h : Effect S k S') (hS : S.Tidy) : S'.Tidy := by
  cases h with
  | none => exact hS
  | accept found continues board => exact hS.accept found continues (board hS.running)
  | drop => exact hS.drop k
  | install number => exact hS.install k number

theorem Effect.project (h : Effect S k S') : S'.project = S.project := by
  cases h with
  | none | accept _ _ _ => rfl
  | drop | install _ => exact S.project_drop k

/-- **Operations keep sessions tidy.** -/
theorem Tidy.performAll (hS : S.Tidy) {ops : List Operation} {as : List Answer}
    (h : Session.performAll fuel ops S = some (as, S')) : S'.Tidy ∧ S'.project = S.project := by
  induction ops generalizing S as with
  | nil =>
    cases h
    exact ⟨hS, rfl⟩
  | cons op ops ih =>
    obtain ⟨_, _, _, hop, hops, _⟩ := performAll_cons_eq_some h
    have heffect := effect_perform hop
    obtain ⟨htidy, hproject⟩ := ih (heffect.tidy hS) hops
    exact ⟨htidy, hproject.trans heffect.project⟩

/-! ## Operations at other handles -/

/-- What is pinned for a simulation is not touched where another one ends. -/
theorem Tidy.pinned?_drop (hS : S.Tidy) (hs : S.sim? handle = some s) (he : k ≠ handle)
    (name : String) : (S.drop k).board.pinned? s.id name = S.board.pinned? s.id name := by
  rw [board_drop hS.running]
  cases hk : S.sim? k with
  | none => rfl
  | some s' =>
    have hne : s'.id ≠ s.id := fun hid => he (hS.distinct hk hs hid)
    rw [Board.pinned?_unpin, if_neg hne]

/-- **An operation leaves the simulations behind other handles alone,** and what is pinned for
them. -/
theorem Effect.leaves (h : Effect S k S') (hS : S.Tidy) (he : k ≠ handle) :
    S'.sim? handle = S.sim? handle ∧ ∀ s, S.sim? handle = some s →
      ∀ name, S'.board.pinned? s.id name = S.board.pinned? s.id name := by
  cases h with
  | none => exact ⟨rfl, fun _ _ _ => rfl⟩
  | @accept s' r found continues board =>
    refine ⟨(S.sim?_accept k handle r).trans (if_neg he), ?_⟩
    intro s hs name
    show r.board.pinned? s.id name = S.board.pinned? s.id name
    rcases board hS.running with hb | ⟨_, _, hb⟩
    · rw [hb]
    · have hne : s'.id ≠ s.id := fun hid => he (hS.distinct found hs hid)
      rw [hb, Board.pinned?_pin, if_neg fun hboth => hne hboth.1]
  | drop => exact ⟨(S.sim?_drop k handle).trans (if_neg he), fun s hs => hS.pinned?_drop hs he⟩
  | install number =>
    exact ⟨(S.sim?_install k handle _).trans (if_neg he), fun s hs => hS.pinned?_drop hs he⟩

end Session

end StockFlow
