import Mathlib.Logic.Relation
import StockFlow.Grammar.Outline
import StockFlow.Proofs.Grammar.Locality

/-!
# What readers pass

No reader takes a word that starts a declaration, except the one that begins a declaration with it.
What is wrong, is wrong at the place where reading stops, and speaks of the token that stands there.

* `SyntaxError.IsAt` — an error at a place of the tokens
* `Stream.Onward` — a stream further on in the same tokens
* `Stream.Passes` — one that is reached without passing a word that starts a declaration
* `Stream.Stops` — where a reader stops, with a result or with an error
* `Stream.stops_annotated`, `Stream.stops_statement` — expressions and statements are read like this
* `Stream.passes_body` — so are bodies, which stay open only at the end of the text
* `Stream.halts_modelHead`, `Stream.halts_kindDecl` — and all that stands before them
-/

namespace StockFlow

/-! ## What is wrong at a place -/

/-- A token that is always written the same way, and does not start a declaration. -/
def Token.isMark : Token → Bool
  | sign _ | opening _ | closing _ => true
  | _ => false

theorem Token.startsDeclaration_of_isMark {t : Token} (h : t.isMark = true) :
    t.startsDeclaration = false := by
  cases t <;> first | rfl | cases h

/-- What was looked for has nothing of a text in it. -/
def Wanted.isFixed : Wanted → Bool
  | token t => t.isMark
  | _ => true

/-- A fault of the grammar that speaks of the token that was found, or of the end of the text where
none was. -/
def SyntaxFault.SpeaksOf (found : Option Token) : SyntaxFault → Prop
  | endOfFile wanted => found = none ∧ wanted.isFixed = true
  | unexpected wanted t => found = some t ∧ wanted.isFixed = true
  | badNumber text => found = some (.number text)
  | noIdentifier t | noTerminator t => found = some t
  | _ => False

/-- **An error at a place:** it stands there and speaks of the token that stands there. -/
structure SyntaxError.IsAt (e : SyntaxError) (s : Stream) : Prop where
  pos : e.pos = s.here
  speaks : e.fault.SpeaksOf s.token?

namespace Stream

/-! ## Streams further on -/

/-- A stream is another one with its next token taken. -/
def Takes (s t : Stream) : Prop := ∃ r : Parsed Lexeme s.size, s.next? = some r ∧ r.stream = t

/-- The same, if the token does not start a declaration. -/
def TakesPlain (s t : Stream) : Prop :=
  ∃ r : Parsed Lexeme s.size, s.next? = some r ∧ r.value.token.startsDeclaration = false ∧
    r.stream = t

/-- **A stream further on** in the same tokens. -/
def Onward : Stream → Stream → Prop := Relation.ReflTransGen Takes

/-- **A stream further on,** with no word in between that starts a declaration. -/
def Passes : Stream → Stream → Prop := Relation.ReflTransGen TakesPlain

/-- A declaration starts here. -/
def AtDeclaration (s : Stream) : Prop :=
  ∃ r : Parsed Lexeme s.size, s.next? = some r ∧ r.value.token.startsDeclaration = true

variable {s t u : Stream} {α β : Type} {n m k : Nat}

theorem atDeclaration_iff : s.AtDeclaration ↔ s.token?.any Token.startsDeclaration = true := by
  obtain ⟨rest, last, stop⟩ := s
  cases rest with
  | nil => exact iff_of_false (fun ⟨_, hr, _⟩ => by cases hr) nofun
  | cons l more => exact ⟨fun ⟨r, hr, h⟩ => by cases hr; exact h, fun h => ⟨_, rfl, h⟩⟩

instance : Decidable s.AtDeclaration := decidable_of_iff _ atDeclaration_iff.symm

theorem Takes.unique (h : s.Takes t) (h' : s.Takes u) : t = u := by
  obtain ⟨r, hr, rfl⟩ := h
  obtain ⟨r', hr', rfl⟩ := h'
  rw [Option.some.inj (hr.symm.trans hr')]

theorem Takes.size_lt (h : s.Takes t) : t.size < s.size := by
  obtain ⟨r, -, rfl⟩ := h
  exact r.lt

theorem Onward.refl (s : Stream) : s.Onward s := Relation.ReflTransGen.refl

theorem Onward.trans (h : s.Onward t) (h' : t.Onward u) : s.Onward u :=
  Relation.ReflTransGen.trans h h'

theorem Onward.of_next? {r : Parsed Lexeme s.size} (h : s.next? = some r) : s.Onward r.stream :=
  .single ⟨r, h, rfl⟩

theorem Onward.size_le (h : s.Onward t) : t.size ≤ s.size := by
  induction h with
  | refl => exact Nat.le_refl _
  | tail _ hstep ih => exact Nat.le_trans (Nat.le_of_lt hstep.size_lt) ih

/-- What is left further on is what was left before, without the tokens in between. -/
theorem Onward.suffix (h : s.Onward t) : t.rest <:+ s.rest ∧ t.stop = s.stop := by
  induction h with
  | refl => exact ⟨List.suffix_refl _, rfl⟩
  | @tail u v _ hstep ih =>
    obtain ⟨r, hr, rfl⟩ := hstep
    obtain ⟨rest, last, stop⟩ := u
    cases rest with
    | nil => cases hr
    | cons l more =>
      cases hr
      exact ⟨(List.suffix_cons l more).trans ih.1, ih.2⟩

theorem Passes.refl (s : Stream) : s.Passes s := Relation.ReflTransGen.refl

theorem Passes.trans (h : s.Passes t) (h' : t.Passes u) : s.Passes u :=
  Relation.ReflTransGen.trans h h'

theorem Passes.onward (h : s.Passes t) : s.Onward t :=
  Relation.ReflTransGen.mono (fun _ _ ⟨r, hr, _, ht⟩ => ⟨r, hr, ht⟩) _ _ h

theorem passes_next? {r : Parsed Lexeme s.size} (h : s.next? = some r)
    (hplain : r.value.token.startsDeclaration = false) : s.Passes r.stream :=
  .single ⟨r, h, hplain, rfl⟩

/-- **What is passed holds no declaration:** all that start further on start behind it. -/
theorem Passes.onward_of_atDeclaration (h : s.Passes t) (hu : s.Onward u) (hat : u.AtDeclaration) :
    t.Onward u := by
  induction h using Relation.ReflTransGen.head_induction_on with
  | refl => exact hu
  | head hstep _ ih =>
    obtain ⟨r, hr, hplain, rfl⟩ := hstep
    rcases Relation.ReflTransGen.cases_head hu with rfl | ⟨c, hc, hcu⟩
    · obtain ⟨r', hr', hstarts⟩ := hat
      obtain rfl := Option.some.inj (hr.symm.trans hr')
      cases hplain.symm.trans hstarts
    · obtain rfl := hc.unique ⟨r, hr, rfl⟩
      exact ih hcu

/-! ## Errors of single tokens -/

theorem token?_of_next? {r : Parsed Lexeme s.size} (h : s.next? = some r) :
    s.token? = some r.value.token := by
  obtain ⟨rest, last, stop⟩ := s
  cases rest with
  | nil => cases h
  | cons l more =>
    cases h
    rfl

theorem token?_of_next?_none (h : s.next? = none) : s.token? = none := by
  obtain ⟨rest, last, stop⟩ := s
  cases rest with
  | nil => rfl
  | cons l more => cases h

@[simp] theorem pos_unexpected (s : Stream) (wanted : Wanted) :
    (s.unexpected wanted).pos = s.here := by
  unfold unexpected
  split <;> rfl

theorem isAt_unexpected (s : Stream) {wanted : Wanted} (hw : wanted.isFixed = true) :
    (s.unexpected wanted).IsAt s := by
  refine ⟨pos_unexpected s wanted, ?_⟩
  unfold unexpected
  split
  · next t ht => exact ⟨ht, hw⟩
  · next hnone => exact ⟨hnone, hw⟩

theorem isAt_expect {w : Token} {e : SyntaxError} (hw : w.isMark = true)
    (h : s.expect w = .error e) : e.IsAt s := by
  unfold expect at h
  split at h <;> cases h
  exact isAt_unexpected s hw

theorem isAt_identifier {e : SyntaxError} (h : s.identifier = .error e) : e.IsAt s := by
  unfold identifier at h
  split at h <;> cases h
  · next hnext => exact ⟨rfl, token?_of_next? hnext⟩
  · next hnext => exact ⟨rfl, token?_of_next?_none hnext, rfl⟩

theorem isAt_terminator {e : SyntaxError} (h : s.terminator = .error e) : e.IsAt s := by
  unfold terminator at h
  split at h <;> cases h
  next hnext => exact ⟨rfl, token?_of_next? hnext⟩

/-! ## Readers that stop -/

/-- **A reader stops at a place that it passes to,** behind what it read or where that is wrong. -/
inductive Stops (s : Stream) : Parse α n → Prop where
  | ok {a : α} {t : Stream} {ht : t.size < n} (h : s.Passes t) : Stops s (.ok ⟨a, t, ht⟩)
  | error {e : SyntaxError} {t : Stream} (h : s.Passes t) (he : e.IsAt t) : Stops s (.error e)

theorem Stops.of_passes {x : Parse α n} (h : Stops t x) (hst : s.Passes t) : Stops s x := by
  cases h with
  | ok h => exact .ok (hst.trans h)
  | error h he => exact .error (hst.trans h) he

/-- What is read one after the other stops where the last of it does. -/
theorem Stops.bind {x : Parse α n} {f : Parsed α n → Parse β m} (h : Stops s x)
    (hnext : ∀ a t (ht : t.size < n), Stops t (f ⟨a, t, ht⟩)) : Stops s (x >>= f) := by
  cases h with
  | ok h => exact (hnext _ _ _).of_passes h
  | error h he => exact .error h he

theorem stops_unexpected (s : Stream) {wanted : Wanted} (hw : wanted.isFixed = true) :
    Stops s (.error (s.unexpected wanted) : Parse α n) :=
  .error (.refl s) (isAt_unexpected s hw)

/-! ## Single tokens -/

theorem passes_take? {w : Token} {r : Parsed Span s.size} (h : s.take? w = some r)
    (hw : w.startsDeclaration = false) : s.Passes r.stream := by
  unfold take? at h
  split at h
  · next l s₁ hlt hnext =>
    split at h
    · next hl =>
      cases h
      exact passes_next? hnext (hl ▸ hw)
    · cases h
  · cases h

theorem stops_expect (s : Stream) {w : Token} (hw : w.isMark = true) : Stops s (s.expect w) := by
  unfold expect
  split
  · next r hr => exact .ok (passes_take? hr (Token.startsDeclaration_of_isMark hw))
  · exact stops_unexpected s hw

theorem stops_identifier (s : Stream) : Stops s s.identifier := by
  cases h : s.identifier with
  | error e => exact .error (.refl s) (isAt_identifier h)
  | ok r =>
    unfold identifier at h
    split at h <;> cases h
    next hnext => exact .ok (passes_next? hnext rfl)

theorem stops_terminator (s : Stream) : Stops s s.terminator := by
  cases h : s.terminator with
  | error e => exact .error (.refl s) (isAt_terminator h)
  | ok r =>
    unfold terminator at h
    split at h <;> cases h
    · next hnext => exact .ok (passes_next? hnext rfl)
    · exact .ok (.refl s)
    · exact .ok (.refl s)

theorem passes_additive? {r : Parsed BinaryOp s.size} (h : s.additive? = some r) :
    s.Passes r.stream := by
  unfold additive? at h
  split at h
  · next hnext => cases h; exact passes_next? hnext rfl
  · next hnext => cases h; exact passes_next? hnext rfl
  · cases h

theorem passes_multiplicative? {r : Parsed BinaryOp s.size} (h : s.multiplicative? = some r) :
    s.Passes r.stream := by
  unfold multiplicative? at h
  split at h
  · next hnext => cases h; exact passes_next? hnext rfl
  · next hnext => cases h; exact passes_next? hnext rfl
  · cases h

theorem passes_units? {typed : Bool} {r : Parsed Expr s.size} (h : s.units? typed = some r) :
    s.Passes r.stream := by
  unfold units? at h
  split at h
  · next hnext => cases h; exact passes_next? hnext rfl
  · next hnext =>
    split at h
    · cases h
      exact passes_next? hnext rfl
    · cases h
  · cases h

theorem passes_kind? {r : Parsed (String × Span) s.size} (h : s.kind? = some r) :
    s.Passes r.stream := by
  unfold kind? at h
  split at h
  · next hnext => cases h; exact passes_next? hnext rfl
  · next hnext => cases h; exact passes_next? hnext rfl
  · cases h

theorem passes_optional {o : Option (Parsed α s.size)} (h : ∀ r, o = some r → s.Passes r.stream) :
    s.Passes (s.optional o).stream := by
  cases o with
  | none => exact .refl s
  | some r => exact h r rfl

theorem passes_optionalUnits (typed : Bool) (s : Stream) :
    s.Passes (s.optional (s.units? typed)).stream :=
  passes_optional fun _ h => passes_units? h

theorem stops_elementEnd (s : Stream) : Stops s s.elementEnd := by
  unfold elementEnd
  split
  · next hnext => exact .ok (passes_next? hnext rfl)
  · exact .ok (.refl s)
  · exact .ok (.refl s)
  · exact stops_unexpected s rfl

theorem stops_pointEnd (s : Stream) : Stops s s.pointEnd := by
  unfold pointEnd
  split
  · next hnext => exact .ok (passes_next? hnext rfl)
  · exact .ok (.refl s)
  · exact .ok (.refl s)
  · exact stops_unexpected s rfl

theorem passes_dropTerminators (s : Stream) : s.Passes s.dropTerminators.stream := by
  obtain ⟨rest, last, stop⟩ := s
  induction rest generalizing last with
  | nil =>
    rw [dropTerminators]
    exact .refl _
  | cons l more ih =>
    obtain ⟨token, span⟩ := l
    by_cases hl : token = .terminator
    · subst hl
      rw [dropTerminators_of_terminator]
      have hstep : (Stream.mk (⟨.terminator, span⟩ :: more) last stop).Passes
          ⟨more, span.stop, stop⟩ := .single ⟨_, rfl, rfl, rfl⟩
      exact hstep.trans (ih span.stop)
    · rw [dropTerminators_of_ne hl]
      exact .refl _

/-! ## Expressions

The theorems follow the readers, and end by the same measure. -/

mutual

theorem stops_annotated (s : Stream) : Stops s s.annotated := by
  rw [annotated]
  refine (stops_expression s).bind fun value s₁ hs₁ => ?_
  simp only
  cases hnote : s₁.units? false with
  | none => exact .ok (.refl s₁)
  | some r => exact .ok (passes_units? hnote)
termination_by 16 * s.size + 7

theorem stops_expression (s : Stream) : Stops s s.expression := by
  rw [expression]
  refine (stops_product s).bind fun left s₁ hs₁ => ?_
  refine (stops_expressionTail left s₁).bind fun e s₂ hs₂ => ?_
  exact .ok (.refl s₂)
termination_by 16 * s.size + 6

theorem stops_expressionTail (left : Expr) (s : Stream) : Stops s (expressionTail left s) := by
  rw [expressionTail]
  cases hsign : s.additive? with
  | none => exact .ok (.refl s)
  | some r =>
    obtain ⟨op, s₁, hs₁⟩ := r
    refine Stops.of_passes ?_ (passes_additive? hsign)
    refine (stops_product s₁).bind fun right s₂ hs₂ => ?_
    refine (stops_expressionTail (joined op left right) s₂).bind fun e s₃ hs₃ => ?_
    exact .ok (.refl s₃)
termination_by 16 * s.size

theorem stops_product (s : Stream) : Stops s s.product := by
  rw [product]
  refine (stops_power s).bind fun left s₁ hs₁ => ?_
  refine (stops_productTail left s₁).bind fun e s₂ hs₂ => ?_
  exact .ok (.refl s₂)
termination_by 16 * s.size + 5

theorem stops_productTail (left : Expr) (s : Stream) : Stops s (productTail left s) := by
  rw [productTail]
  cases hsign : s.multiplicative? with
  | none => exact .ok (.refl s)
  | some r =>
    obtain ⟨op, s₁, hs₁⟩ := r
    refine Stops.of_passes ?_ (passes_multiplicative? hsign)
    refine (stops_power s₁).bind fun right s₂ hs₂ => ?_
    refine (stops_productTail (joined op left right) s₂).bind fun e s₃ hs₃ => ?_
    exact .ok (.refl s₃)
termination_by 16 * s.size

theorem stops_power (s : Stream) : Stops s s.power := by
  rw [power]
  refine (stops_negation s).bind fun base s₁ hs₁ => ?_
  simp only
  cases hcaret : s₁.take? (.sign .caret) with
  | none => exact .ok (.refl s₁)
  | some r =>
    obtain ⟨caret, s₂, hs₂⟩ := r
    refine Stops.of_passes ?_ (passes_take? hcaret rfl)
    refine (stops_power s₂).bind fun exponent s₃ hs₃ => ?_
    exact .ok (.refl s₃)
termination_by 16 * s.size + 4

theorem stops_negation (s : Stream) : Stops s s.negation := by
  rw [negation]
  cases hminus : s.take? (.sign .minus) with
  | none => exact stops_lookup s
  | some r =>
    obtain ⟨sign, s₁, hs₁⟩ := r
    refine Stops.of_passes ?_ (passes_take? hminus rfl)
    refine (stops_negation s₁).bind fun operand s₂ hs₂ => ?_
    exact .ok (.refl s₂)
termination_by 16 * s.size + 3

theorem stops_lookup (s : Stream) : Stops s s.lookup := by
  rw [lookup]
  refine (stops_value s).bind fun value s₁ hs₁ => ?_
  refine (stops_lookupTail value s₁).bind fun e s₂ hs₂ => ?_
  exact .ok (.refl s₂)
termination_by 16 * s.size + 2

theorem stops_lookupTail (table : Expr) (s : Stream) : Stops s (lookupTail table s) := by
  rw [lookupTail]
  cases hopen : s.take? (.opening .square) with
  | none => exact .ok (.refl s)
  | some r =>
    obtain ⟨bracket, s₁, hs₁⟩ := r
    refine Stops.of_passes ?_ (passes_take? hopen rfl)
    refine (stops_expression s₁).bind fun index s₂ hs₂ => ?_
    refine (stops_expect s₂ rfl).bind fun stop s₃ hs₃ => ?_
    refine (stops_lookupTail _ s₃).bind fun e s₄ hs₄ => ?_
    exact .ok (.refl s₄)
termination_by 16 * s.size

theorem stops_value (s : Stream) : Stops s s.value := by
  rw [value]
  cases hnext : s.next? with
  | none => exact stops_unexpected s rfl
  | some r =>
    obtain ⟨⟨token, span⟩, s₁, hs₁⟩ := r
    have htake := passes_next? hnext
    cases token with
    | number text =>
      simp only
      split
      · exact .ok (htake rfl)
      · exact .error (.refl s) ⟨rfl, token?_of_next? hnext⟩
    | literal content => exact .ok (htake rfl)
    | identifier name =>
      refine Stops.of_passes ?_ (htake rfl)
      simp only
      cases hnext₁ : s₁.next? with
      | none => exact .ok (.refl s₁)
      | some r =>
        obtain ⟨⟨token, span'⟩, s₂, hs₂⟩ := r
        cases token with
        | opening b =>
          cases b with
          | round =>
            refine Stops.of_passes ?_ (passes_next? hnext₁ rfl)
            refine (stops_arguments s₂).bind fun args s₃ hs₃ => ?_
            exact .ok (.refl s₃)
          | brace =>
            refine Stops.of_passes ?_ (passes_next? hnext₁ rfl)
            refine (stops_elements s₂).bind fun es s₃ hs₃ => ?_
            exact .ok (.refl s₃)
          | square => exact .ok (.refl s₁)
        | _ => exact .ok (.refl s₁)
    | opening b =>
      refine Stops.of_passes ?_ (htake rfl)
      cases b with
      | round =>
        refine (stops_expression s₁).bind fun e s₂ hs₂ => ?_
        refine (stops_expect s₂ rfl).bind fun stop s₃ hs₃ => ?_
        exact .ok (.refl s₃)
      | brace =>
        refine (stops_elements s₁).bind fun es s₂ hs₂ => ?_
        exact .ok (.refl s₂)
      | square =>
        refine (stops_points s₁).bind fun ps s₂ hs₂ => ?_
        exact .ok (.refl s₂)
    | _ => exact stops_unexpected s rfl
termination_by 16 * s.size + 1

theorem stops_arguments (s : Stream) : Stops s s.arguments := by
  rw [arguments]
  cases hclose : s.take? (.closing .round) with
  | some r => exact .ok (passes_take? hclose rfl)
  | none => exact stops_argumentsFrom s
termination_by 16 * s.size + 8

theorem stops_argumentsFrom (s : Stream) : Stops s s.argumentsFrom := by
  rw [argumentsFrom]
  refine (stops_expression s).bind fun arg s₁ hs₁ => ?_
  simp only
  cases hnext : s₁.next? with
  | none => exact stops_unexpected s₁ rfl
  | some r =>
    obtain ⟨⟨token, span⟩, s₂, hs₂⟩ := r
    cases token with
    | sign sign =>
      cases sign with
      | comma =>
        refine Stops.of_passes ?_ (passes_next? hnext rfl)
        refine (stops_argumentsFrom s₂).bind fun args s₃ hs₃ => ?_
        exact .ok (.refl s₃)
      | _ => exact stops_unexpected s₁ rfl
    | closing b =>
      cases b with
      | round => exact .ok (passes_next? hnext rfl)
      | _ => exact stops_unexpected s₁ rfl
    | _ => exact stops_unexpected s₁ rfl
termination_by 16 * s.size + 7

theorem stops_elements (s : Stream) : Stops s s.elements := by
  rw [elements]
  have hdrop := passes_dropTerminators s
  generalize s.dropTerminators = skipped at hdrop ⊢
  obtain ⟨_, s₁, hs₁⟩ := skipped
  refine Stops.of_passes ?_ hdrop
  simp only
  cases hclose : s₁.take? (.closing .brace) with
  | some r => exact .ok (passes_take? hclose rfl)
  | none =>
    refine (stops_identifier s₁).bind fun key s₂ hs₂ => ?_
    refine (stops_expect s₂ rfl).bind fun colon s₃ hs₃ => ?_
    have hlt₃ : s₃.size < s.size := lt_of_lt_of_le (lt_trans hs₃ hs₂) hs₁
    refine (stops_annotated s₃).bind fun value s₄ hs₄ => ?_
    refine (stops_elementEnd s₄).bind fun _ s₅ hs₅ => ?_
    have hlt₅ : s₅.size < s.size := lt_of_le_of_lt hs₅ (lt_trans hs₄ hlt₃)
    refine (stops_elements s₅).bind fun more s₆ hs₆ => ?_
    exact .ok (.refl s₆)
termination_by 16 * s.size

theorem stops_points (s : Stream) : Stops s s.points := by
  rw [points]
  have hdrop := passes_dropTerminators s
  generalize s.dropTerminators = skipped at hdrop ⊢
  obtain ⟨_, s₁, hs₁⟩ := skipped
  refine Stops.of_passes ?_ hdrop
  simp only
  cases hclose : s₁.take? (.closing .square) with
  | some r => exact .ok (passes_take? hclose rfl)
  | none =>
    refine (stops_expect s₁ rfl).bind fun start s₂ hs₂ => ?_
    have hlt₂ : s₂.size < s.size := lt_of_lt_of_le hs₂ hs₁
    refine (stops_expression s₂).bind fun x s₃ hs₃ => ?_
    refine (stops_expect s₃ rfl).bind fun comma s₄ hs₄ => ?_
    have hlt₄ : s₄.size < s.size := lt_trans hs₄ (lt_trans hs₃ hlt₂)
    refine (stops_expression s₄).bind fun y s₅ hs₅ => ?_
    refine (stops_expect s₅ rfl).bind fun stop s₆ hs₆ => ?_
    refine (stops_pointEnd s₆).bind fun _ s₇ hs₇ => ?_
    have hlt₇ : s₇.size < s.size := lt_of_le_of_lt hs₇ (lt_trans hs₆ (lt_trans hs₅ hlt₄))
    refine (stops_points s₇).bind fun more s₈ hs₈ => ?_
    exact .ok (.refl s₈)
termination_by 16 * s.size

end

/-! ## Statements and bodies -/

theorem stops_varDecl (s : Stream) : Stops s s.varDecl := by
  unfold varDecl
  refine (stops_identifier s).bind fun name s₁ hs₁ => ?_
  have hkind := passes_optional (o := s₁.kind?) fun _ h => passes_kind? h
  simp only
  generalize s₁.optional s₁.kind? = kind at hkind ⊢
  obtain ⟨kind, s₂, hs₂⟩ := kind
  have hunits := passes_optionalUnits false s₂
  simp only
  generalize s₂.optional (s₂.units? false) = units at hunits ⊢
  obtain ⟨units, s₃, hs₃⟩ := units
  exact .ok (hkind.trans hunits)

theorem stops_assigned (s : Stream) : Stops s s.assigned := by
  unfold assigned
  cases hequals : s.take? (.sign .equals) with
  | none => exact .ok (.refl s)
  | some r =>
    obtain ⟨equals, s₁, hs₁⟩ := r
    refine Stops.of_passes ?_ (passes_take? hequals rfl)
    refine (stops_annotated s₁).bind fun value s₂ hs₂ => ?_
    exact .ok (.refl s₂)

theorem stops_statement (s : Stream) : Stops s s.statement := by
  unfold statement
  refine (stops_varDecl s).bind fun decl s₁ hs₁ => ?_
  refine (stops_assigned s₁).bind fun value s₂ hs₂ => ?_
  refine (stops_terminator s₂).bind fun _ s₃ hs₃ => ?_
  exact .ok (.refl s₃)

/-- **Passing over a statement** passes no word that starts a declaration. -/
theorem passes_skipStatement (depth : Nat) (s : Stream) : s.Passes (s.skipStatement depth) := by
  have hplain : ∀ {k : Keyword}, ¬k.startsDeclaration = true → k.startsDeclaration = false :=
    fun h => Bool.eq_false_iff.mpr h
  -- It stops before a keyword that starts a declaration, and passes over no other.
  fun_induction skipStatement depth s with
  | case1 depth s hnext => exact .refl s
  | case2 depth s l s₁ lt hnext b hl ih =>
    exact (passes_next? hnext (by rw [hl]; rfl)).trans ih
  | case3 depth s => exact .refl s
  | case4 depth s l s₁ lt hnext b hl _ ih =>
    exact (passes_next? hnext (by rw [hl]; rfl)).trans ih
  | case5 s l s₁ lt hnext hl => exact passes_next? hnext (by rw [hl]; rfl)
  | case6 depth s l s₁ lt hnext hl _ ih =>
    exact (passes_next? hnext (by rw [hl]; rfl)).trans ih
  | case7 depth s => exact .refl s
  | case8 depth s l s₁ lt hnext k hl hk ih =>
    exact (passes_next? hnext (by rw [hl]; exact hplain hk)).trans ih
  | case9 depth s l s₁ lt hnext _ _ _ hkeyword ih =>
    refine (passes_next? hnext ?_).trans ih
    cases hl : l.token with
    | keyword k => exact (hkeyword k hl).elim
    | _ => rfl

/-- **A body passes no word that starts a declaration.** -/
theorem passes_body (s : Stream) : s.Passes s.body.stream := by
  have hdropped : ∀ {s t : Stream} {ht}, s.dropTerminators = ⟨(), t, ht⟩ → s.Passes t := by
    intro s t ht h
    have hdrop := passes_dropTerminators s
    rwa [h] at hdrop
  fun_induction body s with
  | case1 s _ s₀ hlt hdrop => exact hdropped hdrop
  | case2 s _ s₀ hlt hdrop r hnext hbrace =>
    exact (hdropped hdrop).trans (passes_next? hnext (by rw [hbrace]; rfl))
  | case3 s _ s₀ hlt hdrop => exact hdropped hdrop
  | case4 s _ s₀ hlt hdrop r hnext _ _ stmt s₂ hs₂ hstmt more ih =>
    have hstops := stops_statement s₀
    rw [hstmt] at hstops
    cases hstops with
    | ok h => exact (hdropped hdrop).trans (h.trans ih)
  | case5 s _ s₀ hlt hdrop r hnext _ _ e _ _ more ih =>
    exact (hdropped hdrop).trans ((passes_skipStatement 0 s₀).trans ih)

/-- **A body stays open only at the end of the text,** where its closing brace is missed. -/
theorem body_open {s : Stream} (h : s.body.stop = none) : s.body.stream.next? = none ∧
    s.body.errors.getLast? = some (s.body.stream.unexpected (.token (.closing .brace))) := by
  fun_induction body s with
  | case1 s _ s₀ hlt hdrop hnext => exact ⟨hnext, rfl⟩
  | case2 | case3 => cases h
  | case4 s _ s₀ hlt hdrop r hnext _ _ stmt s₂ hs₂ hstmt more ih => exact ih h
  | case5 s _ s₀ hlt hdrop r hnext _ _ e _ _ more ih =>
    obtain ⟨hend, hlast⟩ := ih h
    refine ⟨hend, ?_⟩
    show (e :: (s₀.skipStatement 0).body.errors).getLast? = _
    rw [List.getLast?_cons, hlast]
    rfl

/-! ## Declarations -/

/-- **A reader halts at a place that it passes to,** behind what it read or where that is wrong. -/
inductive Halts (s : Stream) : Except (Stuck m) (Parsed α n) → Prop where
  | ok {a : α} {t : Stream} {ht : t.size < n} (h : s.Passes t) : Halts s (.ok ⟨a, t, ht⟩)
  | error {stuck : Stuck m} (h : s.Passes stuck.stream)
    (he : stuck.error.IsAt stuck.stream) : Halts s (.error stuck)

theorem Halts.of_passes {x : Except (Stuck m) (Parsed α n)} (h : Halts t x) (hst : s.Passes t) :
    Halts s x := by
  cases h with
  | ok h => exact .ok (hst.trans h)
  | error h he => exact .error (hst.trans h) he

theorem Halts.bind {x : Except (Stuck m) (Parsed α n)}
    {f : Parsed α n → Except (Stuck m) (Parsed β k)} (h : Halts s x)
    (hnext : ∀ a t (ht : t.size < n), Halts t (f ⟨a, t, ht⟩)) : Halts s (x >>= f) := by
  cases h with
  | ok h => exact (hnext _ _ _).of_passes h
  | error h he => exact .error h he

/-- What is wrong with a single token is wrong where the token stands. -/
theorem halts_orStuck {hs : s.size < m} {x : Parse α n} (h : Stops s x)
    (he : ∀ e, x = .error e → e.IsAt s) : Halts s (s.orStuck hs x) := by
  cases h with
  | ok h => exact .ok h
  | error => exact .error (.refl s) (he _ rfl)

theorem halts_parent (s : Stream) : Halts s s.parent := by
  unfold parent
  cases hkey : s.take? (.keyword .specializes) with
  | none => exact .ok (.refl s)
  | some r =>
    obtain ⟨key, s₁, hs₁⟩ := r
    refine Halts.of_passes ?_ (passes_take? hkey rfl)
    refine (halts_orStuck (stops_identifier s₁) fun e => isAt_identifier).bind fun name s₂ hs₂ => ?_
    exact .ok (.refl s₂)

theorem halts_modelHead (s : Stream) : Halts s s.modelHead := by
  unfold modelHead
  refine (halts_orStuck (stops_identifier s) fun e => isAt_identifier).bind fun name s₁ hs₁ => ?_
  have hparent : Halts s₁ (s₁.parent.mapError fun stuck => stuck.since hs₁) := by
    have h := halts_parent s₁
    generalize s₁.parent = r at h ⊢
    cases h with
    | ok h => exact .ok h
    | error h he => exact .error h he
  refine hparent.bind fun parent s₂ hs₂ => ?_
  have hunits := passes_optionalUnits true s₂
  simp only
  generalize s₂.optional (s₂.units? true) = units at hunits ⊢
  obtain ⟨units, s₃, hs₃⟩ := units
  refine Halts.of_passes ?_ hunits
  refine (halts_orStuck (stops_expect s₃ rfl) fun e => isAt_expect rfl).bind fun brace s₄ hs₄ => ?_
  exact .ok (.refl s₄)

theorem halts_kindDecl (start : Pos) (s : Stream) : Halts s (s.kindDecl start) := by
  unfold kindDecl
  refine (halts_orStuck (stops_identifier s) fun e => isAt_identifier).bind fun name s₁ hs₁ => ?_
  have hunits := passes_optionalUnits true s₁
  simp only
  generalize s₁.optional (s₁.units? true) = units at hunits ⊢
  obtain ⟨units, s₂, hs₂⟩ := units
  refine Halts.of_passes ?_ hunits
  refine (halts_orStuck (stops_terminator s₂) fun e => isAt_terminator).bind fun _ s₃ hs₃ => ?_
  exact .ok (.refl s₃)

/-- **The search for the next declaration** ends at the first place where one starts, or at the
end. -/
theorem passes_toDeclaration (s : Stream) : s.Passes s.toDeclaration := by
  fun_induction toDeclaration s with
  | case1 s => exact .refl s
  | case2 s => exact .refl s
  | case3 s r hnext hplain ih =>
    exact (passes_next? hnext (Bool.eq_false_iff.mpr hplain)).trans ih

end Stream

end StockFlow
