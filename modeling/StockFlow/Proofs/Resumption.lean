import StockFlow.Proofs.Grammar.Passage

/-!
# Reading on behind a declaration that fails

* `Stream.begun` — the places at which declarations are begun
* `Stream.failure?` — where a declaration fails, and why
* `Stream.mem_begun_iff` — what starts a declaration is passed over only where one fails
* `File.resumption` — where reading goes on behind a failure, and what is found from there on
-/

namespace StockFlow

namespace Stream

variable {s t u p v w : Stream} {e : SyntaxError}

/-! ## The places at which declarations are begun -/

/-- What is read of the declaration that is begun here; nothing at the end of the text. -/
def read? (s : Stream) : Option (DeclRead s.size) := s.next?.map s.declaration

/-- The declaration that is begun here, if it can be read. -/
def decl? (s : Stream) : Option Decl := s.read?.bind DeclRead.decl

/-- The errors in the declaration that is begun here. -/
def declErrors (s : Stream) : List SyntaxError := (s.read?.map DeclRead.errors).getD []

/-- Where reading goes on behind the declaration that is begun here. -/
def afterDecl (s : Stream) : Stream := (s.read?.map DeclRead.stream).getD s

/-- **The places at which declarations are begun,** up to the end of the text. -/
def begun (s : Stream) : List Stream :=
  let ⟨_, s₀, _h₀⟩ := s.dropTerminators
  match s₀.read? with
  | none => []
  | some r =>
    have _hlt := r.lt
    s₀ :: begun r.stream
termination_by s.size

section

variable {first : Parsed Lexeme s.size}

theorem read?_eq (h : s.next? = some first) : s.read? = some (s.declaration first) := by
  rw [read?, h, Option.map_some]

theorem size_afterDecl_lt (h : s.next? = some first) : s.afterDecl.size < s.size := by
  rw [afterDecl, read?_eq h]
  exact (s.declaration first).lt

end

/-- Declaration by declaration to the end of the text. -/
theorem begun_induction {motive : Stream → Prop}
    (stop : ∀ s, s.dropTerminators.stream.next? = none → motive s)
    (step : ∀ s first, s.dropTerminators.stream.next? = some first →
      motive s.dropTerminators.stream.afterDecl → motive s) (s : Stream) : motive s := by
  cases h : s.dropTerminators.stream.next? with
  | none => exact stop s h
  | some first =>
    have hlt := size_afterDecl_lt h
    have hle := s.dropTerminators.lt
    exact step s first h (begun_induction stop step _)
termination_by s.size

theorem begun_of_none (h : s.dropTerminators.stream.next? = none) : s.begun = [] := by
  rw [begun]
  simp only [read?, h, Option.map_none]

theorem begun_of_some {first : Parsed Lexeme s.dropTerminators.stream.size}
    (h : s.dropTerminators.stream.next? = some first) :
    s.begun = s.dropTerminators.stream :: s.dropTerminators.stream.afterDecl.begun := by
  rw [begun]
  simp only [afterDecl, read?, h, Option.map_some, Option.getD_some]

/-- **What is declared is declared where a declaration is begun,** and so is what is wrong. -/
theorem declarations_eq (s : Stream) :
    s.declarations = (s.begun.filterMap decl?, s.begun.flatMap declErrors) := by
  induction s using begun_induction with
  | stop s h =>
    rw [begun_of_none h, declarations]
    simp only [h, List.filterMap_nil, List.flatMap_nil]
  | step s first h ih =>
    have hread := read?_eq h
    rw [begun_of_some h, declarations]
    rw [afterDecl, hread] at ih ⊢
    simp only [Option.map_some, Option.getD_some] at ih ⊢
    simp only [h, ih, List.flatMap_cons, List.filterMap_cons, decl?, declErrors, hread,
      Option.bind_some, Option.map_some, Option.getD_some]
    cases (s.dropTerminators.stream.declaration first).decl <;> rfl

/-! ## Declarations that fail -/

/-- Where a model fails behind its keyword, and why: where its first line cannot be read on, or at
the end of the text, if its body is still open there. -/
def modelFailure? (s : Stream) : Option (Stream × SyntaxError) :=
  match s.modelHead with
  | .error stuck => some (stuck.stream, stuck.error)
  | .ok head =>
    let body := head.stream.body
    match body.stop with
    | none => some (body.stream, body.stream.unexpected (.token (.closing .brace)))
    | some _ => none

/-- Where a kind fails behind its keyword, and why. -/
def kindFailure? (start : Pos) (s : Stream) : Option (Stream × SyntaxError) :=
  match s.kindDecl start with
  | .error stuck => some (stuck.stream, stuck.error)
  | .ok _ => none

/-- **Where the declaration that is begun here fails,** and why. -/
def failure? (s : Stream) : Option (Stream × SyntaxError) :=
  match s.next? with
  | none => none
  | some first =>
    match first.value.token with
    | .keyword .model | .keyword .interface => first.stream.modelFailure?
    | .keyword .kind => first.stream.kindFailure? first.value.span.start
    | _ => none

/-- Reading from `s` fails at `p`: nothing is declared, and what is wrong is wrong there. -/
structure Fails (s : Stream) (decl : Option Decl) (errors : List SyntaxError) (after p : Stream)
    (e : SyntaxError) : Prop where
  undeclared : decl = none
  reported : e ∈ errors
  pos : e.pos = p.here
  after : after = p.giveUp
  ahead : s.Passes p

/-- Reading from `s` fails where it is said to, or it finds a declaration and passes no word that
starts another one. -/
def FailsOrReads (s : Stream) (decl : Option Decl) (errors : List SyntaxError) (after : Stream)
    (failure? : Option (Stream × SyntaxError)) : Prop :=
  (∃ p e, failure? = some (p, e) ∧ s.Fails decl errors after p e) ∨
    failure? = none ∧ decl.isSome = true ∧ s.Passes after

theorem giveUp_of_none (h : s.next? = none) : s.giveUp = s := by
  rw [giveUp, h]

theorem giveUp_of_some {r : Parsed Lexeme s.size} (h : s.next? = some r) :
    s.giveUp = r.stream.toDeclaration := by
  rw [giveUp, h]

theorem fails_stuck {n : Nat} {stuck : Stuck n} (h : s.Passes stuck.stream)
    (hpos : stuck.error.pos = stuck.stream.here) :
    s.Fails none [stuck.error] stuck.stream.giveUp stuck.stream stuck.error :=
  ⟨rfl, List.mem_singleton_self _, hpos, rfl, h⟩

theorem failsOrReads_modelDecl (start : Pos) (make : ModelDecl → Decl) (s : Stream) :
    let r := s.modelDecl start make
    s.FailsOrReads r.decl r.errors r.stream s.modelFailure? := by
  have hhalts := halts_modelHead s
  unfold modelDecl modelFailure?
  -- Both read the same first line, and the same body behind it.
  generalize s.modelHead = head at hhalts ⊢
  cases hhalts with
  | error h he => exact .inl ⟨_, _, rfl, fails_stuck h he.pos⟩
  | @ok head s₁ hs₁ h =>
    have hpasses := h.trans (passes_body s₁)
    simp only
    cases hstop : s₁.body.stop with
    | none =>
      obtain ⟨hend, hlast⟩ := body_open hstop
      refine .inl ⟨_, _, rfl, rfl, List.mem_of_getLast? hlast, pos_unexpected _ _, ?_, hpasses⟩
      exact (giveUp_of_none hend).symm
    | some stop => exact .inr ⟨rfl, rfl, hpasses⟩

section

variable {first : Parsed Lexeme s.size} (hnext : s.next? = some first)
include hnext

/-- **What starts with a word that starts a declaration** fails where it is said to, or is one. -/
theorem failsOrReads_declaration (hstarts : first.value.token.startsDeclaration = true) :
    first.stream.FailsOrReads s.decl? s.declErrors s.afterDecl s.failure? := by
  rw [decl?, declErrors, afterDecl, read?_eq hnext, failure?, hnext]
  obtain ⟨⟨token, span⟩, s₁, hs₁⟩ := first
  cases token with
  | keyword k =>
    cases k with
    | model => exact failsOrReads_modelDecl span.start .model s₁
    | interface => exact failsOrReads_modelDecl span.start .interface s₁
    | kind =>
      have hhalts := halts_kindDecl span.start s₁
      unfold declaration kindFailure?
      simp only [Option.bind_some, Option.map_some, Option.getD_some]
      generalize s₁.kindDecl span.start = kind at hhalts ⊢
      cases hhalts with
      | error h he => exact .inl ⟨_, _, rfl, fails_stuck h he.pos⟩
      | ok h => exact .inr ⟨rfl, rfl, h⟩
    | _ => cases hstarts
  | _ => cases hstarts

/-- Anything else is passed over, up to the next word that does. -/
theorem afterDecl_of_not_startsDeclaration
    (hstarts : first.value.token.startsDeclaration = false) :
    s.failure? = none ∧ s.afterDecl = first.stream.toDeclaration := by
  rw [afterDecl, read?_eq hnext, failure?, hnext]
  obtain ⟨⟨token, span⟩, s₁, hs₁⟩ := first
  cases token with
  | keyword k =>
    cases k with
    | model | interface | kind => cases hstarts
    | _ => exact ⟨rfl, rfl⟩
  | _ => exact ⟨rfl, rfl⟩

/-- A declaration that does not fail passes no word that starts another one. -/
theorem passes_afterDecl (h : s.failure? = none) : first.stream.Passes s.afterDecl := by
  cases hstarts : first.value.token.startsDeclaration with
  | true =>
    rcases failsOrReads_declaration hnext hstarts with ⟨p, e, hsome, _⟩ | ⟨_, _, hpasses⟩
    · cases h.symm.trans hsome
    · exact hpasses
  | false =>
    rw [(afterDecl_of_not_startsDeclaration hnext hstarts).2]
    exact passes_toDeclaration first.stream

end

theorem fails_of_failure? (h : s.failure? = some (p, e)) :
    ∃ first : Parsed Lexeme s.size, s.next? = some first ∧
      first.stream.Fails s.decl? s.declErrors s.afterDecl p e := by
  cases hnext : s.next? with
  | none =>
    rw [failure?, hnext] at h
    cases h
  | some first =>
    refine ⟨first, rfl, ?_⟩
    cases hstarts : first.value.token.startsDeclaration with
    | true =>
      rcases failsOrReads_declaration hnext hstarts with ⟨p', e', hsome, hfails⟩ | ⟨hnone, _⟩
      · cases hsome.symm.trans h
        exact hfails
      · cases hnone.symm.trans h
    | false => cases (afterDecl_of_not_startsDeclaration hnext hstarts).1.symm.trans h

/-- **A word that starts a declaration starts one, or fails.** -/
theorem decl?_eq_none_iff (hat : s.AtDeclaration) :
    s.decl? = none ↔ ∃ p e, s.failure? = some (p, e) := by
  constructor
  · intro hnone
    obtain ⟨first, hnext, hstarts⟩ := hat
    rcases failsOrReads_declaration hnext hstarts with ⟨p, e, hsome, _⟩ | ⟨_, hsome, _⟩
    · exact ⟨p, e, hsome⟩
    · rw [hnone] at hsome
      cases hsome
  · rintro ⟨p, e, h⟩
    obtain ⟨_, _, hfails⟩ := fails_of_failure? h
    exact hfails.undeclared

/-! ## What is passed over -/

theorem size_giveUp_lt (hat : p.AtDeclaration) : p.giveUp.size < p.size := by
  obtain ⟨r, hr, -⟩ := hat
  rw [giveUp_of_some hr]
  exact Nat.lt_of_le_of_lt (size_toDeclaration_le r.stream) r.lt

theorem onward_giveUp (p : Stream) : p.Onward p.giveUp := by
  cases h : p.next? with
  | none =>
    rw [giveUp_of_none h]
    exact .refl p
  | some r =>
    rw [giveUp_of_some h]
    exact (Onward.of_next? h).trans (passes_toDeclaration r.stream).onward

theorem size_lt_of_failure? (h : s.failure? = some (p, e)) : p.size < s.size := by
  obtain ⟨first, _, hfails⟩ := fails_of_failure? h
  exact Nat.lt_of_le_of_lt hfails.ahead.onward.size_le first.lt

section

variable {first : Parsed Lexeme s.size} (hnext : s.next? = some first)
include hnext

theorem onward_afterDecl : s.Onward s.afterDecl := by
  cases hfailure : s.failure? with
  | none => exact (Onward.of_next? hnext).trans (passes_afterDecl hnext hfailure).onward
  | some failure =>
    obtain ⟨p, e⟩ := failure
    obtain ⟨first', hnext', hfails⟩ := fails_of_failure? hfailure
    rw [hfails.after]
    exact (Onward.of_next? hnext').trans (hfails.ahead.onward.trans (onward_giveUp p))

/-- **What starts a declaration further on** is read on to, unless the declaration before it fails
just there. -/
theorem onward_afterDecl_or_fails (hu : first.stream.Onward u) (hat : u.AtDeclaration) :
    (s.afterDecl.Onward u ∧ ∀ e, s.failure? ≠ some (u, e)) ∨
      (∃ e, s.failure? = some (u, e)) ∧ s.afterDecl.size < u.size := by
  cases hfailure : s.failure? with
  | none =>
    exact .inl ⟨(passes_afterDecl hnext hfailure).onward_of_atDeclaration hu hat, nofun⟩
  | some failure =>
    obtain ⟨p, e⟩ := failure
    obtain ⟨first', hnext', hfails⟩ := fails_of_failure? hfailure
    obtain rfl := Option.some.inj (hnext.symm.trans hnext')
    have hpu := hfails.ahead.onward_of_atDeclaration hu hat
    rw [hfails.after]
    -- Giving up takes the token at `p` in any case, so it matters whether `u` starts with it.
    rcases Relation.ReflTransGen.cases_head hpu with rfl | ⟨c, htakes, hcu⟩
    · exact .inr ⟨⟨e, rfl⟩, size_giveUp_lt hat⟩
    · have hlt : u.size < p.size := Nat.lt_of_le_of_lt (Onward.size_le hcu) htakes.size_lt
      obtain ⟨r, hr, rfl⟩ := htakes
      rw [giveUp_of_some hr]
      refine .inl ⟨(passes_toDeclaration r.stream).onward_of_atDeclaration hcu hat, ?_⟩
      intro e' heq
      cases heq
      exact Nat.lt_irrefl _ hlt

end

theorem onward_of_mem_begun (h : w ∈ s.begun) : s.Onward w := by
  induction s using begun_induction with
  | stop s hnone =>
    rw [begun_of_none hnone] at h
    cases h
  | step s first hnext ih =>
    rw [begun_of_some hnext] at h
    have hdrop := (passes_dropTerminators s).onward
    rcases List.mem_cons.mp h with rfl | h
    · exact hdrop
    · exact hdrop.trans ((onward_afterDecl hnext).trans (ih h))

theorem eq_of_onward_of_none (h : s.next? = none) (hu : s.Onward u) : u = s := by
  rcases Relation.ReflTransGen.cases_head hu with rfl | ⟨c, ⟨r, hr, _⟩, _⟩
  · rfl
  · cases h.symm.trans hr

/-- Whether a declaration is begun where one starts, from one declaration to the next. -/
theorem mem_begun_step {first : Parsed Lexeme s.size} (hnext : s.next? = some first)
    (hu : s.Onward u) (hat : u.AtDeclaration)
    (ih : s.afterDecl.Onward u →
      (u ∈ s.afterDecl.begun ↔ ∀ w ∈ s.afterDecl.begun, ∀ e, w.failure? ≠ some (u, e))) :
    u ∈ s :: s.afterDecl.begun ↔
      ∀ w ∈ s :: s.afterDecl.begun, ∀ e, w.failure? ≠ some (u, e) := by
  rcases Relation.ReflTransGen.cases_head hu with rfl | ⟨c, htakes, hcu⟩
  · -- What fails does so behind its first word, and so behind `s`.
    refine iff_of_true (List.mem_cons_self ..) fun w hw e hfailure => ?_
    have hlt := size_lt_of_failure? hfailure
    rcases List.mem_cons.mp hw with rfl | hw
    · exact Nat.lt_irrefl _ hlt
    · have hle := (onward_of_mem_begun hw).size_le
      have hafter := size_afterDecl_lt hnext
      omega
  · have hne : u ≠ s := by
      rintro rfl
      exact Nat.lt_irrefl _ (Nat.lt_of_le_of_lt (Onward.size_le hcu) htakes.size_lt)
    obtain rfl := htakes.unique ⟨first, hnext, rfl⟩
    rw [List.mem_cons, or_iff_right hne]
    rcases onward_afterDecl_or_fails hnext hcu hat with ⟨hafter, hnot⟩ | ⟨⟨e, hfails⟩, hlt⟩
    · rw [ih hafter, List.forall_mem_cons]
      exact ⟨fun h => ⟨hnot, h⟩, fun h => h.2⟩
    · -- What is begun from here on is further on than `u`.
      refine iff_of_false (fun hmem => ?_) fun h => h s (List.mem_cons_self ..) e hfails
      have hle := (onward_of_mem_begun hmem).size_le
      omega

/-- **A declaration is begun at every word that starts one,** except where one fails. -/
theorem mem_begun_iff (hu : s.Onward u) (hat : u.AtDeclaration) :
    u ∈ s.begun ↔ ∀ w ∈ s.begun, ∀ e, w.failure? ≠ some (u, e) := by
  induction s using begun_induction with
  | stop s hnone =>
    have hu₀ := (passes_dropTerminators s).onward_of_atDeclaration hu hat
    obtain rfl := eq_of_onward_of_none hnone hu₀
    obtain ⟨r, hr, _⟩ := hat
    cases hnone.symm.trans hr
  | step s first hnext ih =>
    rw [begun_of_some hnext]
    exact mem_begun_step hnext ((passes_dropTerminators s).onward_of_atDeclaration hu hat) hat ih

/-- The first place from here on where a declaration starts, or the end of the text. -/
def Finds (s t : Stream) : Prop := s.Passes t ∧ (t.AtDeclaration ∨ t.next? = none)

theorem finds_toDeclaration (s : Stream) : s.Finds s.toDeclaration := by
  refine ⟨passes_toDeclaration s, ?_⟩
  fun_induction toDeclaration s with
  | case1 s hnone => exact .inr hnone
  | case2 s r hnext hstarts => exact .inl ⟨r, hnext, hstarts⟩
  | case3 s r hnext _ ih => exact ih

theorem Finds.eq_of_atDeclaration (h : s.Finds t) (hat : s.AtDeclaration) : s = t := by
  rcases Relation.ReflTransGen.cases_head h.1 with rfl | ⟨c, ⟨r, hr, hplain, _⟩, _⟩
  · rfl
  · obtain ⟨r', hr', hstarts⟩ := hat
    obtain rfl := Option.some.inj (hr.symm.trans hr')
    cases hplain.symm.trans hstarts

theorem Finds.of_next? {r : Parsed Lexeme s.size} (hnext : s.next? = some r)
    (hplain : r.value.token.startsDeclaration = false) (h : r.stream.Finds t) : s.Finds t :=
  ⟨(passes_next? hnext hplain).trans h.1, h.2⟩

/-- Giving up at a place finds the next declaration behind it. -/
theorem finds_giveUp {r : Parsed Lexeme p.size} (hnext : p.next? = some r) :
    r.stream.Finds p.giveUp := by
  rw [giveUp_of_some hnext]
  exact finds_toDeclaration r.stream

/-- **Giving up at a place finds the next declaration from there on,** except if one starts
there. -/
theorem finds_giveUp_iff : p.Finds p.giveUp ↔ ¬p.AtDeclaration := by
  constructor
  · intro h hat
    have hlt := size_giveUp_lt hat
    rw [← h.eq_of_atDeclaration hat] at hlt
    exact Nat.lt_irrefl _ hlt
  · intro hnot
    cases hnext : p.next? with
    | none =>
      rw [giveUp_of_none hnext]
      exact ⟨.refl p, .inr hnext⟩
    | some r =>
      refine .of_next? hnext (Bool.eq_false_iff.mpr fun hstarts => ?_) (finds_giveUp hnext)
      exact hnot ⟨r, hnext, hstarts⟩

/-- The places at which the declarations of a file are begun. -/
def places (s : Stream) : List Stream := s.package.stream.imports.stream.begun

end Stream

namespace File

theorem decls_ofStream (s : Stream) : (ofStream s).decls = s.places.filterMap Stream.decl? := by
  simp only [ofStream, Stream.declarations_eq, Stream.places]

theorem mem_errors_ofStream {s v : Stream} {e : SyntaxError} (hv : v ∈ s.places)
    (he : e ∈ v.declErrors) : e ∈ (ofStream s).errors := by
  simp only [ofStream, Stream.declarations_eq]
  exact List.mem_append_right _ (List.mem_flatMap.mpr ⟨v, hv, he⟩)

/-- **How a file is read on behind a declaration that fails.** -/
structure Resumption (s v p : Stream) (e : SyntaxError) : Prop where
  failure : v.failure? = some (p, e)
  reported : e ∈ (ofStream s).errors
  /-- What is wrong is wrong at the word at which reading failed. -/
  pos : e.pos = p.here
  /-- That word is passed over, and so is everything up to the next declaration. -/
  behind : ∀ r, p.next? = some r → r.stream.Finds v.afterDecl
  /-- The next declaration from there on is found unless that word starts it. -/
  next : p.Finds v.afterDecl ↔ ¬p.AtDeclaration
  /-- From there on, what starts a declaration is declared, and what is wrong with it is reported,
  unless another declaration fails at its first word. -/
  found : ∀ u, p.Onward u → u.AtDeclaration → (∀ w ∈ s.places, ∀ e', w.failure? ≠ some (u, e')) →
    (∀ d, u.decl? = some d → d ∈ (ofStream s).decls) ∧ ∀ e' ∈ u.declErrors, e' ∈ (ofStream s).errors
  /-- Where another one does, none is begun. -/
  lost : ∀ u, p.Onward u → u.AtDeclaration → ∀ w ∈ s.places, ∀ e', w.failure? = some (u, e') →
    u ∉ s.places

/-- **A file is read on behind every declaration that fails,** at the next word that starts one.
What is lost is what starts with the very word at which a declaration fails. -/
theorem resumption (s : Stream) : ∀ v ∈ s.places, v.AtDeclaration → v.decl? = none →
    ∃ p e, Resumption s v p e := by
  intro v hv hat hnone
  obtain ⟨p, e, hfailure⟩ := (Stream.decl?_eq_none_iff hat).mp hnone
  obtain ⟨first, hnext, hfails⟩ := Stream.fails_of_failure? hfailure
  have hbegun : ∀ u, p.Onward u → u.AtDeclaration →
      (u ∈ s.places ↔ ∀ w ∈ s.places, ∀ e', w.failure? ≠ some (u, e')) := by
    intro u hu hstarts
    have hvp := (Stream.Onward.of_next? hnext).trans hfails.ahead.onward
    exact Stream.mem_begun_iff ((Stream.onward_of_mem_begun hv).trans (hvp.trans hu)) hstarts
  refine ⟨p, e, hfailure, mem_errors_ofStream hv hfails.reported, hfails.pos, ?_, ?_, ?_, ?_⟩
  · intro r hr
    rw [hfails.after]
    exact Stream.finds_giveUp hr
  · rw [hfails.after]
    exact Stream.finds_giveUp_iff
  · intro u hu hstarts hnot
    have hplace := (hbegun u hu hstarts).mpr hnot
    refine ⟨fun d hd => ?_, fun e' he' => mem_errors_ofStream hplace he'⟩
    rw [decls_ofStream]
    exact List.mem_filterMap.mpr ⟨u, hplace, hd⟩
  · intro u hu hstarts w hw e' hfailure' hplace
    exact (hbegun u hu hstarts).mp hplace w hw e' hfailure'

/-- The tokens of a text. -/
def tokens (text : String) : Stream := ⟨(Scan.ofText text).lexemes, Pos.start, Pos.ofEnd text⟩

/-- A model whose first line fails before its end, and another model. -/
def interrupted : String := "model flock b\nmodel herd \x7b size = 1; \x7d"

/-- Where the one is begun, where and why it fails, and the other. -/
def interruptedRuns : Option (Stream × Stream × SyntaxError × Decl) := do
  let v ← (tokens interrupted).places.head?
  let (p, e) ← v.failure?
  let d ← p.toDeclaration.decl?
  if v.AtDeclaration ∧ ¬p.AtDeclaration ∧ p.toDeclaration.AtDeclaration ∧ d.name = "herd" ∧
      ∀ w ∈ (tokens interrupted).places, w.failure?.map Prod.fst ≠ some p.toDeclaration then
    return (v, p, e, d)
  else none

theorem resumption_interrupted : ∃ (v p : Stream) (e : SyntaxError) (d : Decl),
    v ∈ (tokens interrupted).places ∧ v.AtDeclaration ∧ v.decl? = none ∧
    Resumption (tokens interrupted) v p e ∧ p.Finds v.afterDecl ∧ d.name = "herd" ∧
    d ∈ (ofStream (tokens interrupted)).decls := by
  have hsome : interruptedRuns.isSome = true := by decide +kernel
  obtain ⟨runs, hruns⟩ := Option.isSome_iff_exists.mp hsome
  obtain ⟨v, hv, hruns⟩ := Option.bind_eq_some_iff.mp hruns
  obtain ⟨⟨p, e⟩, hfailure, hruns⟩ := Option.bind_eq_some_iff.mp hruns
  obtain ⟨d, hd, hruns⟩ := Option.bind_eq_some_iff.mp hruns
  obtain ⟨⟨hat, hplain, hnext, hname, hnot⟩, _⟩ := Option.ite_none_right_eq_some.mp hruns
  have hmem := List.mem_of_head? hv
  have hnone := (Stream.decl?_eq_none_iff hat).mpr ⟨p, e, hfailure⟩
  obtain ⟨p', e', h⟩ := resumption (tokens interrupted) v hmem hat hnone
  cases h.failure.symm.trans hfailure
  have honward := (Stream.passes_toDeclaration p).onward
  obtain ⟨hfound, _⟩ := h.found _ honward hnext fun w hw e' hw' => hnot w hw (by rw [hw']; rfl)
  exact ⟨v, p, e, d, hmem, hat, hnone, h, h.next.mpr hplain, hname, hfound d hd⟩

/-- A kind without a name, and a model. -/
def nameless : String := "kind\nmodel herd \x7b size = 1; \x7d"

/-- Where the kind is begun, where and why it fails, and the model that starts there. -/
def namelessRuns : Option (Stream × Stream × SyntaxError × Decl) := do
  let v ← (tokens nameless).places.head?
  let (p, e) ← v.failure?
  let d ← p.decl?
  if v.AtDeclaration ∧ p.AtDeclaration ∧ p.declErrors = [] ∧ d.name = "herd" ∧
      (parse nameless).decls.isEmpty = true ∧ (parse nameless).errors = [e] then
    return (v, p, e, d)
  else none

/-- **A declaration is lost if another one fails at its first word.** It is in order by itself, and
it is the first from there on, but it is not found. -/
theorem lost_nameless : ∃ (v p : Stream) (e : SyntaxError) (d : Decl),
    v ∈ (tokens nameless).places ∧ v.AtDeclaration ∧ v.failure? = some (p, e) ∧ e.pos = p.here ∧
    p.AtDeclaration ∧ p.decl? = some d ∧ p.declErrors = [] ∧ d.name = "herd" ∧
    ¬p.Finds v.afterDecl ∧ (parse nameless).decls = [] ∧ (parse nameless).errors = [e] := by
  have hsome : namelessRuns.isSome = true := by decide +kernel
  obtain ⟨runs, hruns⟩ := Option.isSome_iff_exists.mp hsome
  obtain ⟨v, hv, hruns⟩ := Option.bind_eq_some_iff.mp hruns
  obtain ⟨⟨p, e⟩, hfailure, hruns⟩ := Option.bind_eq_some_iff.mp hruns
  obtain ⟨d, hd, hruns⟩ := Option.bind_eq_some_iff.mp hruns
  obtain ⟨⟨hat, hnext, hclean, hname, hdecls, herrors⟩, _⟩ :=
    Option.ite_none_right_eq_some.mp hruns
  obtain ⟨_, _, hfails⟩ := Stream.fails_of_failure? hfailure
  have hmiss : ¬p.Finds v.afterDecl := by
    rw [hfails.after]
    exact fun h => Stream.finds_giveUp_iff.mp h hnext
  exact ⟨v, p, e, d, List.mem_of_head? hv, hat, hfailure, hfails.pos, hnext, hd, hclean, hname,
    hmiss, List.isEmpty_iff.mp hdecls, herrors⟩

end File

end StockFlow
