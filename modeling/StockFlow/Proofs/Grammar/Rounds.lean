import StockFlow.Proofs.Grammar.Faults

/-!
# Loops over tokens

Imports, declarations and the statements of a body are read by three loops. A round reads one of
them or records what is wrong with it, and ends where reading goes on behind it. A statement that is
wrong is passed over from its start, which takes a token because no body ends there
(`Stream.beyond_skipStatement_iff`).

Each round takes a token at least, and one for each error that it records. So a loop is left after
as many rounds as there are tokens at most, and a file has no more errors than tokens.

* `Stream.Beyond` — a stream further on, with one token taken at least
* `Stream.Loop`, `Stream.Loop.Runs` — loops, and what they do until they are left
* `Stream.Loop.Advances` — loops whose rounds take tokens
* `Stream.Loop.Advances.exists_runs` — such a loop is left
* `Stream.advances_statementLoop`, `Stream.advances_importLoop`, `Stream.advances_declarationLoop` —
  the three loops advance
* `Stream.recovery_advances` — whatever the tokens are, reading gets on and ends
-/

namespace StockFlow

namespace Stream

variable {s t u : Stream} {n : Nat} {found more : List SyntaxError}

/-- **A stream beyond another one:** a token is taken at least. -/
def Beyond : Stream → Stream → Prop := Relation.TransGen Takes

theorem Beyond.size_lt (h : s.Beyond t) : t.size < s.size := by
  obtain ⟨u, hu, hut⟩ := Relation.TransGen.head'_iff.mp h
  exact Nat.lt_of_le_of_lt (Onward.size_le hut) hu.size_lt

theorem Onward.beyond (h : s.Onward t) (hlt : t.size < s.size) : s.Beyond t := by
  rcases Relation.reflTransGen_iff_eq_or_transGen.mp h with rfl | h
  · exact (Nat.lt_irrefl _ hlt).elim
  · exact h

/-! ## Loops -/

/-- A loop, given by its rounds: what a round that starts here finds wrong, and where the next one
starts. There is none where the loop is left. -/
abbrev Loop := Stream → Option (List SyntaxError × Stream)

namespace Loop

variable {loop : Loop} {β : Type}

/-- **What a loop does until it is left:** from `s` on there are `n` rounds, which find errors, and
it is left at `t`. -/
inductive Runs (loop : Loop) : Stream → Nat → List SyntaxError → Stream → Prop where
  | leave {s : Stream} (h : loop s = none) : Runs loop s 0 [] s
  | round {s t u : Stream} {n : Nat} {found more : List SyntaxError}
    (h : loop s = some (found, t)) (later : Runs loop t n more u) :
    Runs loop s (n + 1) (found ++ more) u

/-- **A loop advances** if each of its rounds takes a token at least, and one for each error that it
finds. -/
structure Advances (loop : Loop) : Prop where
  beyond : ∀ {s t found}, loop s = some (found, t) → s.Beyond t
  errors : ∀ {s t found}, loop s = some (found, t) → found.length + t.size ≤ s.size

/-- A loop advances if each of its rounds takes a token at least and finds one error at most. -/
theorem Advances.of_beyond
    (h : ∀ s t found, loop s = some (found, t) → s.Beyond t ∧ found.length ≤ 1) :
    loop.Advances := by
  refine ⟨fun hround => (h _ _ _ hround).1, fun hround => ?_⟩
  obtain ⟨hbeyond, hle⟩ := h _ _ _ hround
  have hlt := hbeyond.size_lt
  omega

/-- **A loop that advances is left.** -/
theorem Advances.exists_runs (h : loop.Advances) (s : Stream) :
    ∃ n found t, loop.Runs s n found t := by
  cases hround : loop s with
  | none => exact ⟨0, [], s, .leave hround⟩
  | some r =>
    obtain ⟨found, t⟩ := r
    have hlt := (h.beyond hround).size_lt
    obtain ⟨n, more, u, hlater⟩ := h.exists_runs t
    exact ⟨n + 1, found ++ more, u, .round hround hlater⟩
termination_by s.size

namespace Runs

theorem left (h : loop.Runs s n found t) : loop t = none := by
  induction h with
  | leave h => exact h
  | round _ _ ih => exact ih

theorem rounds_le (h : loop.Runs s n found t) (hadvances : loop.Advances) :
    n + t.size ≤ s.size := by
  induction h with
  | leave => exact Nat.le_of_eq (Nat.zero_add _)
  | round hround _ ih =>
    have hlt := (hadvances.beyond hround).size_lt
    omega

theorem errors_le (h : loop.Runs s n found t) (hadvances : loop.Advances) :
    found.length + t.size ≤ s.size := by
  induction h with
  | leave => exact Nat.le_of_eq (Nat.zero_add _)
  | round hround _ ih =>
    have hle := hadvances.errors hround
    rw [List.length_append]
    omega

/-- What records what each round finds, records what all of them find. -/
theorem records (h : loop.Runs s n found t) (errors : Stream → List SyntaxError)
    (hround : ∀ {s t found}, loop s = some (found, t) → errors s = found ++ errors t) :
    errors s = found ++ errors t := by
  induction h with
  | leave => rfl
  | round h _ ih => rw [hround h, ih, List.append_assoc]

/-- What no round changes, the loop does not. -/
theorem keeps (h : loop.Runs s n found t) (left : Stream → β)
    (hround : ∀ {s t found}, loop s = some (found, t) → left s = left t) : left s = left t := by
  induction h with
  | leave => rfl
  | round h _ ih => rw [hround h, ih]

/-- Where each round reads one thing or finds one wrong, so many rounds there are. -/
theorem counts (h : loop.Runs s n found t) (items : Stream → Nat)
    (hround : ∀ {s t found}, loop s = some (found, t) →
      items s + found.length = items t + 1) : items s + found.length = items t + n := by
  induction h with
  | leave => rfl
  | round h _ ih =>
    have hone := hround h
    rw [List.length_append]
    omega

end Runs

/-- **A loop that advances is left after as many rounds as there are tokens at most,** with as many
errors at most. -/
theorem Advances.ends (h : loop.Advances) (s : Stream) : ∃ n found t, loop.Runs s n found t ∧
    n + t.size ≤ s.size ∧ found.length + t.size ≤ s.size := by
  obtain ⟨n, found, t, hruns⟩ := h.exists_runs s
  exact ⟨n, found, t, hruns, hruns.rounds_le h, hruns.errors_le h⟩

end Loop

theorem onward_drop (s : Stream) : s.Onward s.dropTerminators.stream :=
  (passes_dropTerminators s).onward

theorem size_drop_le (s : Stream) : s.dropTerminators.stream.size ≤ s.size :=
  Nat.le_of_lt_succ s.dropTerminators.lt

theorem size_giveUp_stuck_lt {m : Nat} (stuck : Stuck m) : stuck.stream.giveUp.size < m :=
  Nat.lt_of_le_of_lt (size_giveUp_le stuck.stream) stuck.lt

/-! ## Statements -/

/-- **Reading the statements of a body.** The loop is left where the body ends. A statement that
fails is passed over from its start. -/
def statementLoop : Loop := fun s =>
  let s₀ := s.dropTerminators.stream
  match s₀.next? with
  | none => none
  | some first =>
    if endsBody first.value.token then none
    else
      match s₀.statement with
      | .ok stmt => some ([], stmt.stream)
      | .error e => some ([e], s₀.skipStatement 0)

/-- **Passing over a statement goes beyond its first token,** unless the body ends there. -/
theorem beyond_skipStatement_iff {first : Parsed Lexeme s.size} (hnext : s.next? = some first) :
    s.Beyond (s.skipStatement 0) ↔ endsBody first.value.token = false := by
  constructor
  · intro hbeyond
    refine Bool.eq_false_iff.mpr fun hends => ?_
    -- Where the body ends, nothing is passed over at all.
    have hstays : s.skipStatement 0 = s := by
      obtain ⟨⟨token, span⟩, s₁, hs₁⟩ := first
      rw [skipStatement, hnext]
      cases token with
      | closing b => exact if_pos ⟨of_decide_eq_true hends, rfl⟩
      | keyword k => exact if_pos hends
      | _ => cases hends
    have hlt := hbeyond.size_lt
    rw [hstays] at hlt
    exact Nat.lt_irrefl _ hlt
  · exact fun hends =>
      (passes_skipStatement 0 s).onward.beyond (size_skipStatement_lt hnext hends)

theorem onward_of_statement {stmt : Parsed Stmt s.size} (h : s.statement = .ok stmt) :
    s.Onward stmt.stream := by
  have hstops := stops_statement s
  rw [h] at hstops
  cases hstops with
  | ok hpasses => exact hpasses.onward

theorem statementLoop_cases (h : statementLoop s = some (found, t)) :
    ∃ first, s.dropTerminators.stream.next? = some first ∧
      endsBody first.value.token = false ∧
      ((∃ stmt, s.dropTerminators.stream.statement = .ok stmt ∧ found = [] ∧ t = stmt.stream) ∨
        ∃ e, s.dropTerminators.stream.statement = .error e ∧ found = [e] ∧
          t = s.dropTerminators.stream.skipStatement 0) := by
  unfold statementLoop at h
  simp only at h
  split at h
  · cases h
  · next first hnext =>
    split at h
    · cases h
    · next hends =>
      refine ⟨first, hnext, Bool.eq_false_iff.mpr hends, ?_⟩
      split at h
      · next stmt hstmt =>
        cases h
        exact .inl ⟨stmt, hstmt, rfl, rfl⟩
      · next e hstmt =>
        cases h
        exact .inr ⟨e, hstmt, rfl, rfl⟩

theorem advances_statementLoop : statementLoop.Advances := by
  refine .of_beyond fun s t found h => ?_
  obtain ⟨first, hnext, hends, ⟨stmt, hstmt, rfl, rfl⟩ | ⟨e, hstmt, rfl, rfl⟩⟩ :=
    statementLoop_cases h
  · have hlt := Nat.lt_of_lt_of_le stmt.lt (size_drop_le s)
    exact ⟨((onward_drop s).trans (onward_of_statement hstmt)).beyond hlt, Nat.zero_le 1⟩
  · have hskip := (beyond_skipStatement_iff hnext).mpr hends
    exact ⟨Relation.TransGen.trans_right (onward_drop s) hskip, Nat.le_refl 1⟩

theorem body_of_round (h : statementLoop s = some (found, t)) :
    s.body.errors = found ++ t.body.errors ∧ s.body.stream = t.body.stream ∧
      s.body.stmts.length + found.length = t.body.stmts.length + 1 := by
  unfold statementLoop at h
  rw [body]
  generalize s.dropTerminators = skipped at h ⊢
  obtain ⟨_, s₀, hs₀⟩ := skipped
  simp only at h ⊢
  split
  · next hnone =>
    rw [hnone] at h
    cases h
  · next first hnext =>
    simp only [hnext] at h
    by_cases hends : endsBody first.value.token = true
    · rw [if_pos hends] at h
      cases h
    · have hbrace : ¬first.value.token = .closing .brace := by
        intro hbrace
        rw [hbrace] at hends
        exact hends rfl
      rw [if_neg hends] at h
      rw [if_neg hbrace, dif_neg hends]
      split at h
      · next stmt hstmt =>
        cases h
        simp only [hstmt, List.nil_append, List.length_cons, List.length_nil, Nat.add_zero,
          and_self]
      · next e hstmt =>
        cases h
        simp only [hstmt, List.singleton_append, List.length_cons, List.length_nil, Nat.zero_add,
          and_self]

/-- Where the loop is left, a body that is not closed is one more error. -/
theorem body_of_left (h : statementLoop t = none) : t.body.errors.length ≤ 1 ∧
    t.body.errors.length + t.body.stream.size ≤ t.size + 1 ∧ t.body.stmts = [] := by
  unfold statementLoop at h
  rw [body]
  generalize t.dropTerminators = skipped at h ⊢
  obtain ⟨_, s₀, hs₀⟩ := skipped
  simp only at h ⊢
  split
  · exact ⟨Nat.le_refl 1, by simp only [List.length_singleton]; omega, rfl⟩
  · next first hnext =>
    have hlt := first.lt
    simp only [hnext] at h
    split
    · exact ⟨Nat.zero_le 1, by simp only [List.length_nil]; omega, rfl⟩
    · split
      · exact ⟨Nat.le_refl 1, by simp only [List.length_singleton]; omega, rfl⟩
      · next hends =>
        rw [if_neg hends] at h
        split at h <;> cases h

/-- **A body is read by the loop:** each round reads a statement or finds one wrong. -/
theorem body_of_runs (h : statementLoop.Runs s n found t) :
    s.body.errors = found ++ t.body.errors ∧ s.body.stream = t.body.stream ∧
      s.body.stmts.length + found.length = n := by
  have herrors := h.records (fun s => s.body.errors) fun h => (body_of_round h).1
  have hstream := h.keeps (fun s => s.body.stream) fun h => (body_of_round h).2.1
  have hcount := h.counts (fun s => s.body.stmts.length) fun h => (body_of_round h).2.2
  simp only [(body_of_left h.left).2.2, List.length_nil, Nat.zero_add] at hcount
  exact ⟨herrors, hstream, hcount⟩

/-- **A body has no more errors than it takes tokens,** and one more at most. -/
theorem errors_body_le (s : Stream) : s.body.errors.length + s.body.stream.size ≤ s.size + 1 := by
  obtain ⟨n, found, t, hruns, _, hle⟩ := advances_statementLoop.ends s
  obtain ⟨herrors, hstream, _⟩ := body_of_runs hruns
  -- The one error more is that the body is not closed, which takes no token.
  obtain ⟨_, hlast, _⟩ := body_of_left hruns.left
  rw [herrors, hstream, List.length_append]
  omega

/-! ## Imports -/

/-- **Reading imports.** The loop is left where there is no other. -/
def importLoop : Loop := fun s =>
  let s₀ := s.dropTerminators.stream
  match s₀.take? (.keyword .imports) with
  | none => none
  | some key =>
    match key.stream.importPath with
    | .ok path => some ([], path.stream)
    | .error stuck => some ([stuck.error], stuck.stream.giveUp)

theorem advances_importLoop : importLoop.Advances := by
  refine .of_beyond fun s t found h => ?_
  unfold importLoop at h
  simp only at h
  split at h
  · cases h
  · next key hkey =>
    have hlt := Nat.lt_of_lt_of_le key.lt (size_drop_le s)
    have honward := (onward_drop s).trans (onward_take? hkey)
    have hhalts := halts_importPath key.stream
    split at h
    · next path hpath =>
      cases h
      rw [hpath] at hhalts
      have hread := honward.trans (onward_of_halts hhalts)
      exact ⟨hread.beyond (Nat.lt_trans path.lt hlt), Nat.zero_le 1⟩
    · next stuck hstuck =>
      cases h
      rw [hstuck] at hhalts
      have hgiven := (honward.trans (FoundAhead.of_halts hhalts).2).trans (onward_giveUp _)
      have hle := Nat.le_of_lt_succ (size_giveUp_stuck_lt stuck)
      exact ⟨hgiven.beyond (Nat.lt_of_le_of_lt hle hlt), Nat.le_refl 1⟩

theorem imports_of_round (h : importLoop s = some (found, t)) :
    s.imports.errors = found ++ t.imports.errors ∧ s.imports.stream = t.imports.stream ∧
      s.imports.items.length + found.length = t.imports.items.length + 1 := by
  unfold importLoop at h
  rw [imports]
  generalize s.dropTerminators = skipped at h ⊢
  obtain ⟨_, s₀, hs₀⟩ := skipped
  simp only at h ⊢
  split at h
  · cases h
  · next key hkey =>
    simp only [hkey]
    split at h
    · next path hpath =>
      cases h
      simp only [hpath, List.nil_append, List.length_cons, List.length_nil, Nat.add_zero, and_self]
    · next stuck hstuck =>
      cases h
      simp only [hstuck, List.singleton_append, List.length_cons, List.length_nil, Nat.zero_add,
        and_self]

theorem imports_of_left (h : importLoop t = none) : t.imports.errors = [] ∧
    t.imports.stream = t.dropTerminators.stream ∧ t.imports.items = [] := by
  unfold importLoop at h
  rw [imports]
  generalize t.dropTerminators = skipped at h ⊢
  obtain ⟨_, s₀, hs₀⟩ := skipped
  simp only at h ⊢
  split at h
  · next hnone => simp only [hnone, and_self]
  · split at h <;> cases h

/-- **Imports are read by the loop:** each round reads one or finds one wrong. -/
theorem imports_of_runs (h : importLoop.Runs s n found t) :
    s.imports.errors = found ∧ s.imports.stream = t.dropTerminators.stream ∧
      s.imports.items.length + found.length = n := by
  obtain ⟨hnone, hlast, hitems⟩ := imports_of_left h.left
  have herrors := h.records (fun s => s.imports.errors) fun h => (imports_of_round h).1
  have hstream := h.keeps (fun s => s.imports.stream) fun h => (imports_of_round h).2.1
  have hcount := h.counts (fun s => s.imports.items.length) fun h => (imports_of_round h).2.2
  rw [hnone, List.append_nil] at herrors
  simp only [hitems, List.length_nil, Nat.zero_add] at hcount
  exact ⟨herrors, hstream.trans hlast, hcount⟩

theorem errors_imports_le (s : Stream) :
    s.imports.errors.length + s.imports.stream.size ≤ s.size := by
  obtain ⟨n, found, t, hruns, _, hle⟩ := advances_importLoop.ends s
  obtain ⟨herrors, hstream, _⟩ := imports_of_runs hruns
  have hdrop := size_drop_le t
  rw [herrors, hstream]
  omega

/-! ## Declarations -/

theorem errors_ofStuck_le {m : Nat} (stuck : Stuck m) :
    (DeclRead.ofStuck stuck).errors.length + (DeclRead.ofStuck stuck).stream.size ≤ m := by
  have hlt := size_giveUp_stuck_lt stuck
  simp only [DeclRead.ofStuck, List.length_singleton]
  omega

theorem errors_modelDecl_le (start : Pos) (make : ModelDecl → Decl) (s : Stream) :
    (s.modelDecl start make).errors.length + (s.modelDecl start make).stream.size ≤ s.size + 1 := by
  unfold modelDecl
  split
  · next stuck _ => exact errors_ofStuck_le stuck
  · next head s₁ hs₁ _ =>
    have hbody := errors_body_le s₁
    simp only
    split <;> simp only <;> omega

/-- **A declaration has no more errors than it takes tokens.** -/
theorem errors_declaration_le (first : Parsed Lexeme s.size) :
    (s.declaration first).errors.length + (s.declaration first).stream.size ≤ s.size := by
  have hlt := first.lt
  unfold declaration
  simp only
  split
  · have hle := errors_modelDecl_le first.value.span.start .model first.stream
    omega
  · have hle := errors_modelDecl_le first.value.span.start .interface first.stream
    omega
  · split
    · next kind s₁ hs₁ _ =>
      simp only [List.length_nil]
      omega
    · next stuck _ =>
      have hle := errors_ofStuck_le stuck
      omega
  · have hle := size_toDeclaration_le first.stream
    simp only [List.length_singleton]
    omega

/-- **Reading declarations.** The loop is left at the end of the text. -/
def declarationLoop : Loop := fun s =>
  let s₀ := s.dropTerminators.stream
  match s₀.next? with
  | none => none
  | some first => some ((s₀.declaration first).errors, (s₀.declaration first).stream)

theorem declarationLoop_cases (h : declarationLoop s = some (found, t)) :
    ∃ first, s.dropTerminators.stream.next? = some first ∧
      found = s.dropTerminators.stream.declErrors ∧ t = s.dropTerminators.stream.afterDecl ∧
      found.length + t.size ≤ s.dropTerminators.stream.size := by
  unfold declarationLoop at h
  simp only at h
  split at h
  · cases h
  · next first hnext =>
    cases h
    have hread := read?_eq hnext
    refine ⟨first, hnext, ?_, ?_, errors_declaration_le first⟩
    · rw [declErrors, hread]
      rfl
    · rw [afterDecl, hread]
      rfl

theorem advances_declarationLoop : declarationLoop.Advances := by
  constructor
  · intro s t found h
    obtain ⟨first, hnext, -, rfl, -⟩ := declarationLoop_cases h
    exact ((onward_drop s).trans (onward_afterDecl hnext)).beyond
      (Nat.lt_of_lt_of_le (size_afterDecl_lt hnext) (size_drop_le s))
  · intro s t found h
    obtain ⟨first, -, -, -, hle⟩ := declarationLoop_cases h
    exact Nat.le_trans hle (size_drop_le s)

theorem left_declarationLoop (h : declarationLoop t = none) :
    t.dropTerminators.stream.next? = none := by
  unfold declarationLoop at h
  simp only at h
  split at h
  · next hnone => exact hnone
  · cases h

/-- **Declarations are read by the loop:** in each round one is begun. -/
theorem declarations_of_runs (h : declarationLoop.Runs s n found t) :
    s.declarations.2 = found ∧ s.begun.length = n ∧ t.dropTerminators.stream.next? = none := by
  refine ⟨?_, ?_, left_declarationLoop h.left⟩
  · rw [declarations_eq]
    simp only
    induction h with
    | leave h => rw [begun_of_none (left_declarationLoop h), List.flatMap_nil]
    | round h _ ih =>
      obtain ⟨first, hnext, rfl, rfl, -⟩ := declarationLoop_cases h
      rw [begun_of_some hnext, List.flatMap_cons, ih]
  · induction h with
    | leave h => rw [begun_of_none (left_declarationLoop h), List.length_nil]
    | round h _ ih =>
      obtain ⟨first, hnext, -, rfl, -⟩ := declarationLoop_cases h
      rw [begun_of_some hnext, List.length_cons, ih]

theorem errors_declarations_le (s : Stream) : s.declarations.2.length ≤ s.size := by
  obtain ⟨n, found, t, hruns, _, hle⟩ := advances_declarationLoop.ends s
  obtain ⟨herrors, _⟩ := declarations_of_runs hruns
  rw [herrors]
  omega

/-! ## Files -/

theorem errors_package_le (s : Stream) :
    s.package.errors.length + s.package.stream.size ≤ s.size := by
  have hdrop := size_drop_le s
  unfold package
  generalize s.dropTerminators = skipped at hdrop ⊢
  obtain ⟨_, s₀, hs₀⟩ := skipped
  simp only at hdrop ⊢
  split
  · simp only [List.length_nil]
    omega
  · next key s₁ hs₁ _ =>
    split
    · next name s₂ hs₂ _ =>
      simp only [List.length_nil]
      omega
    · next stuck _ =>
      have hlt := size_giveUp_stuck_lt stuck
      simp only [List.length_singleton]
      omega

end Stream

/-- **A file has no more errors than tokens.** -/
theorem File.errors_ofStream_le (s : Stream) : (ofStream s).errors.length ≤ s.size := by
  have hpackage := s.errors_package_le
  have himports := s.package.stream.errors_imports_le
  have hdecls := s.package.stream.imports.stream.errors_declarations_le
  simp only [ofStream, List.length_append]
  omega

namespace Stream

/-- **Whatever the tokens are, reading gets on and ends.** A statement that fails where no body ends
is passed over beyond its first token. Each round of a loop goes beyond where it starts, so that the
loop is left after as many rounds as there are tokens at most. A round reads one thing or finds it
wrong. What the rounds find is what is recorded, but for a body that is not closed, and a file has
no more errors than tokens. -/
theorem recovery_advances :
    (∀ (s : Stream) (first : Parsed Lexeme s.size) (e : SyntaxError), s.next? = some first →
      endsBody first.value.token = false → s.statement = .error e →
      s.Beyond (s.skipStatement 0)) ∧
    (∀ loop ∈ [statementLoop, importLoop, declarationLoop],
      (∀ s found t, loop s = some (found, t) → s.Beyond t) ∧
      ∀ s, ∃ n found t, loop.Runs s n found t ∧ n + t.size ≤ s.size ∧
        found.length + t.size ≤ s.size) ∧
    (∀ s n found t, statementLoop.Runs s n found t →
      s.body.errors = found ++ t.body.errors ∧ t.body.errors.length ≤ 1 ∧
      s.body.stream = t.body.stream ∧ s.body.stmts.length + found.length = n) ∧
    (∀ s n found t, importLoop.Runs s n found t →
      s.imports.errors = found ∧ s.imports.stream = t.dropTerminators.stream ∧
      s.imports.items.length + found.length = n) ∧
    (∀ s n found t, declarationLoop.Runs s n found t →
      s.declarations.2 = found ∧ s.begun.length = n ∧ t.dropTerminators.stream.next? = none) ∧
    ∀ s, (File.ofStream s).errors.length ≤ s.size := by
  refine ⟨fun s first e hnext hends _ => (beyond_skipStatement_iff hnext).mpr hends, ?_, ?_,
    fun s n found t => imports_of_runs, fun s n found t => declarations_of_runs,
    File.errors_ofStream_le⟩
  · have hends : ∀ {loop : Loop}, loop.Advances →
        (∀ s found t, loop s = some (found, t) → s.Beyond t) ∧
        ∀ s, ∃ n found t, loop.Runs s n found t ∧ n + t.size ≤ s.size ∧
          found.length + t.size ≤ s.size :=
      fun h => ⟨fun s found t => h.beyond, h.ends⟩
    simp only [List.forall_mem_cons]
    exact ⟨hends advances_statementLoop, hends advances_importLoop,
      hends advances_declarationLoop, nofun⟩
  · intro s n found t hruns
    obtain ⟨herrors, hrest⟩ := body_of_runs hruns
    exact ⟨herrors, (body_of_left hruns.left).1, hrest⟩

/-- A body whose first statement starts with a number. -/
def numbered : Stream :=
  ⟨[⟨.number "3", default⟩, ⟨.terminator, default⟩, ⟨.closing .brace, default⟩], .start, .start⟩

theorem recovery_advances_numbered : ∃ (first : Parsed Lexeme numbered.size) (e : SyntaxError),
    numbered.next? = some first ∧ numbered.statement = .error e ∧
    numbered.Beyond (numbered.skipStatement 0) ∧
    (∃ n found t, statementLoop.Runs numbered n found t ∧ n + t.size ≤ 3 ∧
      numbered.body.errors = found ++ t.body.errors) ∧
    (∃ n found t, importLoop.Runs numbered n found t ∧ numbered.imports.errors = found) ∧
    (∃ n found t, declarationLoop.Runs numbered n found t ∧ numbered.declarations.2 = found) ∧
    (File.ofStream numbered).errors.length ≤ 3 := by
  obtain ⟨hskip, hloops, hbody, himports, hdecls, herrors⟩ := recovery_advances
  simp only [List.forall_mem_cons] at hloops
  obtain ⟨⟨_, hstatements⟩, ⟨_, himported⟩, ⟨_, hdeclared⟩, _⟩ := hloops
  obtain ⟨n, found, t, hruns, hle, _⟩ := hstatements numbered
  obtain ⟨n', found', t', hruns', _⟩ := himported numbered
  obtain ⟨n'', found'', t'', hruns'', _⟩ := hdeclared numbered
  exact ⟨_, _, rfl, rfl, hskip numbered _ _ rfl rfl rfl,
    ⟨n, found, t, hruns, hle, (hbody _ _ _ _ hruns).1⟩,
    ⟨n', found', t', hruns', (himports _ _ _ _ hruns').1⟩,
    ⟨n'', found'', t'', hruns'', (hdecls _ _ _ _ hruns'').1⟩, herrors numbered⟩

end Stream

end StockFlow
