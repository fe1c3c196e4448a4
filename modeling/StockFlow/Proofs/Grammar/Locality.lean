import StockFlow.Grammar.Statement

/-!
# Statements are read from their own tokens

In the tokens of a statement brackets are closed in turn, and no terminator stands outside them.
Whatever is read from there, what follows behind the terminator makes no difference: the same is
found, at the same place, or the same is wrong.

* `Token.nest`, `Nested` — tokens whose brackets are closed in turn
* `Stream.Alike` — two streams in the middle of the same statement
* `Stream.alike_annotated` — an expression is read alike from both
* `Stream.alike_statement` — so is a statement, up to its terminator
-/

namespace StockFlow

/-- The open brackets behind a token, the innermost first, if it stands where `inside` are open.
There is no answer where the token may not stand in a statement: no bracket is closed out of turn, a
terminator stands in brackets, and no declaration starts. -/
def Token.nest (inside : List Bracket) : Token → Option (List Bracket)
  | opening b => some (b :: inside)
  | closing b =>
    match inside with
    | [] => none
    | innermost :: outer => if b = innermost then some outer else none
  | terminator => if inside = [] then none else some inside
  | keyword k => if k.startsDeclaration then none else some inside
  | sign _ | identifier _ | number _ | literal _ | typeName _ => some inside

/-- Tokens that close the brackets that are open and all that they open themselves, in turn. -/
def Nested (inside : List Bracket) (ts : List Token) : Prop := ts.foldlM Token.nest inside = some []

instance (inside : List Bracket) (ts : List Token) : Decidable (Nested inside ts) :=
  inferInstanceAs (Decidable (_ = _))

theorem nested_nil {inside : List Bracket} : Nested inside [] ↔ inside = [] := by
  unfold Nested
  rw [List.foldlM_nil]
  exact ⟨fun h => Option.some.inj h, fun h => congrArg some h⟩

theorem nested_cons {inside : List Bracket} {t : Token} {ts : List Token} :
    Nested inside (t :: ts) ↔ ∃ inside', t.nest inside = some inside' ∧ Nested inside' ts := by
  unfold Nested
  rw [List.foldlM_cons, Option.bind_eq_bind, Option.bind_eq_some_iff]

namespace Stream

/-- Two streams in the middle of the same statement, `inside` brackets. Behind its terminator the
one goes on as `x` and the other as `y`. -/
inductive Alike (x y : Stream) (inside : List Bracket) : Stream → Stream → Prop where
  | intro {front : List Lexeme} {term : Lexeme} (last : Pos)
    (terminator : term.token = .terminator) (nested : Nested inside (front.map Lexeme.token))
    (left : x.last = term.span.stop) (right : y.last = term.span.stop) :
    Alike x y inside ⟨front ++ term :: x.rest, last, x.stop⟩ ⟨front ++ term :: y.rest, last, y.stop⟩

variable {x y s t : Stream} {inside inside' : List Bracket} {α β : Type} {n m n' m' : Nat}

namespace Alike

/-- The next token of both is the same, and behind it they are in the middle of the statement again,
unless it was the terminator. -/
theorem next (h : Alike x y inside s t) : ∃ l s' t' hs ht, s.next? = some ⟨l, s', hs⟩ ∧
    t.next? = some ⟨l, t', ht⟩ ∧
    (∀ inside', l.token.nest inside = some inside' → Alike x y inside' s' t') ∧
    (l.token.nest inside = none → l.token = .terminator ∧ inside = [] ∧ s' = x ∧ t' = y) := by
  cases h with
  | @intro front term last hterm hnested hx hy =>
    cases front with
    | nil =>
      obtain rfl := nested_nil.mp hnested
      refine ⟨term, ⟨x.rest, term.span.stop, x.stop⟩, ⟨y.rest, term.span.stop, y.stop⟩, _, _, rfl,
        rfl, fun inside' hin => ?_, fun _ => ⟨hterm, rfl, by rw [← hx], by rw [← hy]⟩⟩
      rw [hterm] at hin
      cases hin
    | cons l front =>
      obtain ⟨inside₁, hin₁, hrest⟩ := nested_cons.mp hnested
      refine ⟨l, ⟨front ++ term :: x.rest, l.span.stop, x.stop⟩,
        ⟨front ++ term :: y.rest, l.span.stop, y.stop⟩, _, _, rfl, rfl, fun inside' hin => ?_,
        fun hnone => ?_⟩
      · obtain rfl := Option.some.inj (hin₁.symm.trans hin)
        exact .intro _ hterm hrest hx hy
      · cases hin₁.symm.trans hnone

theorem last_eq (h : Alike x y inside s t) : s.last = t.last := by
  cases h
  rfl

theorem unexpected_eq (h : Alike x y inside s t) (wanted : Wanted) :
    s.unexpected wanted = t.unexpected wanted := by
  cases h with
  | @intro front term last => cases front <;> rfl

theorem here_eq (h : Alike x y inside s t) : s.here = t.here := by
  cases h with
  | @intro front term last => cases front <;> rfl

end Alike

/-! ## Reading from both -/

/-- The same was read from two streams, which are then in the middle of the same statement again, or
the same is wrong with both. -/
inductive ReadAlike (x y : Stream) (inside : List Bracket) : Parse α n → Parse α m → Prop where
  | ok {a : α} {s t : Stream} {hs : s.size < n} {ht : t.size < m} (h : Alike x y inside s t) :
    ReadAlike x y inside (.ok ⟨a, s, hs⟩) (.ok ⟨a, t, ht⟩)
  | error (e : SyntaxError) : ReadAlike x y inside (.error e) (.error e)

/-- The same may stand there or not. -/
inductive TakenAlike (x y : Stream) (inside : List Bracket) :
    Option (Parsed α n) → Option (Parsed α m) → Prop where
  | some {a : α} {s t : Stream} {hs : s.size < n} {ht : t.size < m} (h : Alike x y inside s t) :
    TakenAlike x y inside (some ⟨a, s, hs⟩) (some ⟨a, t, ht⟩)
  | none : TakenAlike x y inside none none

/-- The same was read up to the end of the statement, or the same is wrong with both. -/
inductive EndAlike (x y : Stream) : Parse α n → Parse α m → Prop where
  | ok {a : α} {hx : x.size < n} {hy : y.size < m} : EndAlike x y (.ok ⟨a, x, hx⟩) (.ok ⟨a, y, hy⟩)
  | error (e : SyntaxError) : EndAlike x y (.error e) (.error e)

theorem ReadAlike.bind_of {R : Parse β n' → Parse β m' → Prop} {r : Parse α n} {r' : Parse α m}
    {f : Parsed α n → Parse β n'} {g : Parsed α m → Parse β m'} (h : ReadAlike x y inside r r')
    (herror : ∀ e, R (.error e) (.error e))
    (hnext : ∀ a s t (hs : s.size < n) (ht : t.size < m), Alike x y inside s t →
      R (f ⟨a, s, hs⟩) (g ⟨a, t, ht⟩)) : R (r >>= f) (r' >>= g) := by
  cases h with
  | ok h => exact hnext _ _ _ _ _ h
  | error e => exact herror e

/-- What is read one after the other is read alike from both. -/
theorem ReadAlike.bind {r : Parse α n} {r' : Parse α m} {f : Parsed α n → Parse β n'}
    {g : Parsed α m → Parse β m'} (h : ReadAlike x y inside r r')
    (hnext : ∀ a s t (hs : s.size < n) (ht : t.size < m), Alike x y inside s t →
      ReadAlike x y inside' (f ⟨a, s, hs⟩) (g ⟨a, t, ht⟩)) :
    ReadAlike x y inside' (r >>= f) (r' >>= g) := h.bind_of .error hnext

namespace Alike

variable (h : Alike x y inside s t)
include h

theorem take? (w : Token) (inside' : List Bracket) (hw : w.nest inside = some inside') :
    TakenAlike x y inside' (s.take? w) (t.take? w) := by
  obtain ⟨l, s', t', hs, ht, hnext, hnext', hin, -⟩ := h.next
  rw [Stream.take?, Stream.take?, hnext, hnext']
  by_cases hl : l.token = w
  · simp only [if_pos hl]
    exact .some (hin inside' (hl ▸ hw))
  · simp only [if_neg hl]
    exact .none

theorem expect (w : Token) (inside' : List Bracket) (hw : w.nest inside = some inside') :
    ReadAlike x y inside' (s.expect w) (t.expect w) := by
  have htaken := h.take? w inside' hw
  unfold Stream.expect
  rw [h.unexpected_eq]
  generalize s.take? w = r at htaken ⊢
  generalize t.take? w = r' at htaken ⊢
  cases htaken with
  | some h => exact .ok h
  | none => exact .error _

theorem identifier : ReadAlike x y inside s.identifier t.identifier := by
  obtain ⟨⟨token, span⟩, s', t', hs, ht, hnext, hnext', hin, -⟩ := h.next
  rw [Stream.identifier, Stream.identifier, hnext, hnext', h.here_eq]
  cases token with
  | identifier name => exact .ok (hin inside rfl)
  | _ => exact .error _

theorem additive? : TakenAlike x y inside s.additive? t.additive? := by
  obtain ⟨⟨token, span⟩, s', t', hs, ht, hnext, hnext', hin, -⟩ := h.next
  rw [Stream.additive?, Stream.additive?, hnext, hnext']
  cases token with
  | sign sign =>
    cases sign with
    | plus | minus => exact .some (hin inside rfl)
    | _ => exact .none
  | _ => exact .none

theorem multiplicative? : TakenAlike x y inside s.multiplicative? t.multiplicative? := by
  obtain ⟨⟨token, span⟩, s', t', hs, ht, hnext, hnext', hin, -⟩ := h.next
  rw [Stream.multiplicative?, Stream.multiplicative?, hnext, hnext']
  cases token with
  | sign sign =>
    cases sign with
    | star | slash => exact .some (hin inside rfl)
    | _ => exact .none
  | _ => exact .none

theorem units? : TakenAlike x y inside (s.units? false) (t.units? false) := by
  obtain ⟨⟨token, span⟩, s', t', hs, ht, hnext, hnext', hin, -⟩ := h.next
  rw [Stream.units?, Stream.units?, hnext, hnext']
  cases token with
  | literal content => exact .some (hin inside rfl)
  | _ => exact .none

theorem kind? : TakenAlike x y inside s.kind? t.kind? := by
  obtain ⟨⟨token, span⟩, s', t', hs, ht, hnext, hnext', hin, -⟩ := h.next
  rw [Stream.kind?, Stream.kind?, hnext, hnext']
  cases token with
  | identifier name | typeName content => exact .some (hin inside rfl)
  | _ => exact .none

theorem elementEnd : ReadAlike x y inside s.elementEnd t.elementEnd := by
  obtain ⟨⟨token, span⟩, s', t', hs, ht, hnext, hnext', hin, -⟩ := h.next
  rw [Stream.elementEnd, Stream.elementEnd, hnext, hnext', h.unexpected_eq]
  cases token with
  | terminator => exact .ok h
  | closing b =>
    cases b with
    | brace => exact .ok h
    | _ => exact .error _
  | sign sign =>
    cases sign with
    | comma => exact .ok (hin inside rfl)
    | _ => exact .error _
  | _ => exact .error _

theorem pointEnd : ReadAlike x y inside s.pointEnd t.pointEnd := by
  obtain ⟨⟨token, span⟩, s', t', hs, ht, hnext, hnext', hin, -⟩ := h.next
  rw [Stream.pointEnd, Stream.pointEnd, hnext, hnext', h.unexpected_eq]
  cases token with
  | terminator => exact .ok h
  | closing b =>
    cases b with
    | square => exact .ok h
    | _ => exact .error _
  | sign sign =>
    cases sign with
    | comma => exact .ok (hin inside rfl)
    | _ => exact .error _
  | _ => exact .error _

end Alike

theorem dropTerminators_of_terminator {more : List Lexeme} {span : Span} {last stop : Pos} :
    (Stream.mk (⟨.terminator, span⟩ :: more) last stop).dropTerminators.stream =
      (Stream.mk more span.stop stop).dropTerminators.stream := by
  rw [dropTerminators]

theorem dropTerminators_of_ne {l : Lexeme} {more : List Lexeme} {last stop : Pos}
    (hl : l.token ≠ .terminator) :
    (Stream.mk (l :: more) last stop).dropTerminators =
      ⟨(), ⟨l :: more, last, stop⟩, lt_succ _⟩ := by
  rw [dropTerminators]
  split
  · next hrest =>
    cases hrest
    exact absurd rfl hl
  · rfl

/-- In brackets, the same terminators are passed over. -/
theorem Alike.dropTerminators (h : Alike x y inside s t) (hinside : inside ≠ []) :
    Alike x y inside s.dropTerminators.stream t.dropTerminators.stream := by
  cases h with
  | @intro front term last hterm hnested hx hy =>
    induction front generalizing last with
    | nil => exact absurd (nested_nil.mp hnested) hinside
    | cons l front ih =>
      obtain ⟨token, span⟩ := l
      by_cases htoken : token = .terminator
      · subst htoken
        obtain ⟨inside₁, hin₁, hrest⟩ := nested_cons.mp hnested
        rw [Token.nest, if_neg hinside] at hin₁
        obtain rfl := Option.some.inj hin₁
        rw [List.cons_append, List.cons_append, dropTerminators_of_terminator,
          dropTerminators_of_terminator]
        exact ih _ hrest
      · rw [List.cons_append, List.cons_append, dropTerminators_of_ne htoken,
          dropTerminators_of_ne htoken]
        exact @Alike.intro x y inside (⟨token, span⟩ :: front) term last hterm hnested hx hy

/-! ## Expressions

The theorems follow the readers, and end by the same measure. -/

mutual

theorem alike_annotated {x y s t : Stream} {inside : List Bracket} (h : Alike x y inside s t) :
    ReadAlike x y inside s.annotated t.annotated := by
  rw [annotated, annotated]
  refine (alike_expression h).bind fun value s₁ t₁ hs₁ ht₁ h₁ => ?_
  have hnote := h₁.units?
  simp only
  generalize s₁.units? false = r at hnote ⊢
  generalize t₁.units? false = r' at hnote ⊢
  cases hnote with
  | some h₂ => exact .ok h₂
  | none => exact .ok h₁
termination_by 16 * s.size + 7

theorem alike_expression {x y s t : Stream} {inside : List Bracket} (h : Alike x y inside s t) :
    ReadAlike x y inside s.expression t.expression := by
  rw [expression, expression]
  refine (alike_product h).bind fun left s₁ t₁ hs₁ ht₁ h₁ => ?_
  refine (alike_expressionTail left h₁).bind fun e s₂ t₂ hs₂ ht₂ h₂ => ?_
  exact .ok h₂
termination_by 16 * s.size + 6

theorem alike_expressionTail {x y s t : Stream} {inside : List Bracket} (left : Expr)
    (h : Alike x y inside s t) :
    ReadAlike x y inside (expressionTail left s) (expressionTail left t) := by
  rw [expressionTail, expressionTail]
  have hsign := h.additive?
  generalize s.additive? = r at hsign ⊢
  generalize t.additive? = r' at hsign ⊢
  cases hsign with
  | none => exact .ok h
  | @some op s₁ t₁ hs₁ ht₁ h₁ =>
    refine (alike_product h₁).bind fun right s₂ t₂ hs₂ ht₂ h₂ => ?_
    refine (alike_expressionTail (joined op left right) h₂).bind fun e s₃ t₃ hs₃ ht₃ h₃ => ?_
    exact .ok h₃
termination_by 16 * s.size

theorem alike_product {x y s t : Stream} {inside : List Bracket} (h : Alike x y inside s t) :
    ReadAlike x y inside s.product t.product := by
  rw [product, product]
  refine (alike_power h).bind fun left s₁ t₁ hs₁ ht₁ h₁ => ?_
  refine (alike_productTail left h₁).bind fun e s₂ t₂ hs₂ ht₂ h₂ => ?_
  exact .ok h₂
termination_by 16 * s.size + 5

theorem alike_productTail {x y s t : Stream} {inside : List Bracket} (left : Expr)
    (h : Alike x y inside s t) :
    ReadAlike x y inside (productTail left s) (productTail left t) := by
  rw [productTail, productTail]
  have hsign := h.multiplicative?
  generalize s.multiplicative? = r at hsign ⊢
  generalize t.multiplicative? = r' at hsign ⊢
  cases hsign with
  | none => exact .ok h
  | @some op s₁ t₁ hs₁ ht₁ h₁ =>
    refine (alike_power h₁).bind fun right s₂ t₂ hs₂ ht₂ h₂ => ?_
    refine (alike_productTail (joined op left right) h₂).bind fun e s₃ t₃ hs₃ ht₃ h₃ => ?_
    exact .ok h₃
termination_by 16 * s.size

theorem alike_power {x y s t : Stream} {inside : List Bracket} (h : Alike x y inside s t) :
    ReadAlike x y inside s.power t.power := by
  rw [power, power]
  refine (alike_negation h).bind fun base s₁ t₁ hs₁ ht₁ h₁ => ?_
  have hcaret := h₁.take? (.sign .caret) _ rfl
  simp only
  generalize s₁.take? (.sign .caret) = r at hcaret ⊢
  generalize t₁.take? (.sign .caret) = r' at hcaret ⊢
  cases hcaret with
  | none => exact .ok h₁
  | @some caret s₂ t₂ hs₂ ht₂ h₂ =>
    refine (alike_power h₂).bind fun exponent s₃ t₃ hs₃ ht₃ h₃ => ?_
    exact .ok h₃
termination_by 16 * s.size + 4

theorem alike_negation {x y s t : Stream} {inside : List Bracket} (h : Alike x y inside s t) :
    ReadAlike x y inside s.negation t.negation := by
  rw [negation, negation]
  have hminus := h.take? (.sign .minus) _ rfl
  generalize s.take? (.sign .minus) = r at hminus ⊢
  generalize t.take? (.sign .minus) = r' at hminus ⊢
  cases hminus with
  | none => exact alike_lookup h
  | @some sign s₁ t₁ hs₁ ht₁ h₁ =>
    refine (alike_negation h₁).bind fun operand s₂ t₂ hs₂ ht₂ h₂ => ?_
    exact .ok h₂
termination_by 16 * s.size + 3

theorem alike_lookup {x y s t : Stream} {inside : List Bracket} (h : Alike x y inside s t) :
    ReadAlike x y inside s.lookup t.lookup := by
  rw [lookup, lookup]
  refine (alike_value h).bind fun value s₁ t₁ hs₁ ht₁ h₁ => ?_
  refine (alike_lookupTail value h₁).bind fun e s₂ t₂ hs₂ ht₂ h₂ => ?_
  exact .ok h₂
termination_by 16 * s.size + 2

theorem alike_lookupTail {x y s t : Stream} {inside : List Bracket} (table : Expr)
    (h : Alike x y inside s t) :
    ReadAlike x y inside (lookupTail table s) (lookupTail table t) := by
  rw [lookupTail, lookupTail]
  have hopen := h.take? (.opening .square) (.square :: inside) rfl
  generalize s.take? (.opening .square) = r at hopen ⊢
  generalize t.take? (.opening .square) = r' at hopen ⊢
  cases hopen with
  | none => exact .ok h
  | @some bracket s₁ t₁ hs₁ ht₁ h₁ =>
    refine (alike_expression h₁).bind fun index s₂ t₂ hs₂ ht₂ h₂ => ?_
    refine (h₂.expect (.closing .square) _ rfl).bind fun stop s₃ t₃ hs₃ ht₃ h₃ => ?_
    refine (alike_lookupTail _ h₃).bind fun e s₄ t₄ hs₄ ht₄ h₄ => ?_
    exact .ok h₄
termination_by 16 * s.size

theorem alike_value {x y s t : Stream} {inside : List Bracket} (h : Alike x y inside s t) :
    ReadAlike x y inside s.value t.value := by
  obtain ⟨⟨token, span⟩, s₁, t₁, hs₁, ht₁, hnext, hnext', hin, -⟩ := h.next
  rw [value, value, hnext, hnext', h.unexpected_eq, h.here_eq]
  cases token with
  | number text =>
    simp only
    split
    · exact .ok (hin inside rfl)
    · exact .error _
  | literal content => exact .ok (hin inside rfl)
  | identifier name =>
    have h₁ := hin inside rfl
    obtain ⟨⟨token, span'⟩, s₂, t₂, hs₂, ht₂, hnext₁, hnext₁', hin₁, -⟩ := h₁.next
    simp only [hnext₁, hnext₁']
    cases token with
    | opening b =>
      cases b with
      | round =>
        refine (alike_arguments (hin₁ (.round :: inside) rfl)).bind fun args s₃ t₃ hs₃ ht₃ h₃ => ?_
        exact .ok h₃
      | brace =>
        refine (alike_elements (hin₁ (.brace :: inside) rfl)).bind fun es s₃ t₃ hs₃ ht₃ h₃ => ?_
        exact .ok h₃
      | square => exact .ok h₁
    | _ => exact .ok h₁
  | opening b =>
    cases b with
    | round =>
      refine (alike_expression (hin (.round :: inside) rfl)).bind fun e s₂ t₂ hs₂ ht₂ h₂ => ?_
      refine (h₂.expect (.closing .round) _ rfl).bind fun stop s₃ t₃ hs₃ ht₃ h₃ => ?_
      exact .ok h₃
    | brace =>
      refine (alike_elements (hin (.brace :: inside) rfl)).bind fun es s₂ t₂ hs₂ ht₂ h₂ => ?_
      exact .ok h₂
    | square =>
      refine (alike_points (hin (.square :: inside) rfl)).bind fun ps s₂ t₂ hs₂ ht₂ h₂ => ?_
      exact .ok h₂
  | _ => exact .error _
termination_by 16 * s.size + 1

theorem alike_arguments {x y s t : Stream} {inside : List Bracket}
    (h : Alike x y (.round :: inside) s t) :
    ReadAlike x y inside s.arguments t.arguments := by
  rw [arguments, arguments]
  have hclose := h.take? (.closing .round) inside rfl
  generalize s.take? (.closing .round) = r at hclose ⊢
  generalize t.take? (.closing .round) = r' at hclose ⊢
  cases hclose with
  | some h₁ => exact .ok h₁
  | none => exact alike_argumentsFrom h
termination_by 16 * s.size + 8

theorem alike_argumentsFrom {x y s t : Stream} {inside : List Bracket}
    (h : Alike x y (.round :: inside) s t) :
    ReadAlike x y inside s.argumentsFrom t.argumentsFrom := by
  rw [argumentsFrom, argumentsFrom]
  refine (alike_expression h).bind fun arg s₁ t₁ hs₁ ht₁ h₁ => ?_
  obtain ⟨⟨token, span⟩, s₂, t₂, hs₂, ht₂, hnext, hnext', hin, -⟩ := h₁.next
  simp only [hnext, hnext', h₁.unexpected_eq]
  cases token with
  | sign sign =>
    cases sign with
    | comma =>
      refine (alike_argumentsFrom (hin _ rfl)).bind fun args s₃ t₃ hs₃ ht₃ h₃ => ?_
      exact .ok h₃
    | _ => exact .error _
  | closing b =>
    cases b with
    | round => exact .ok (hin inside rfl)
    | _ => exact .error _
  | _ => exact .error _
termination_by 16 * s.size + 7

theorem alike_elements {x y s t : Stream} {inside : List Bracket}
    (h : Alike x y (.brace :: inside) s t) :
    ReadAlike x y inside s.elements t.elements := by
  rw [elements, elements]
  have h₁ := h.dropTerminators (List.cons_ne_nil _ _)
  generalize s.dropTerminators = skipped at h₁ ⊢
  generalize t.dropTerminators = skipped' at h₁ ⊢
  obtain ⟨_, s₁, hs₁⟩ := skipped
  obtain ⟨_, t₁, ht₁⟩ := skipped'
  replace h₁ : Alike x y (.brace :: inside) s₁ t₁ := h₁
  have hclose := h₁.take? (.closing .brace) inside rfl
  simp only
  generalize s₁.take? (.closing .brace) = r at hclose ⊢
  generalize t₁.take? (.closing .brace) = r' at hclose ⊢
  cases hclose with
  | some h₂ => exact .ok h₂
  | none =>
    refine h₁.identifier.bind fun key s₂ t₂ hs₂ ht₂ h₂ => ?_
    refine (h₂.expect (.sign .colon) _ rfl).bind fun colon s₃ t₃ hs₃ ht₃ h₃ => ?_
    have hlt₃ : s₃.size < s.size := lt_of_lt_of_le (lt_trans hs₃ hs₂) hs₁
    refine (alike_annotated h₃).bind fun value s₄ t₄ hs₄ ht₄ h₄ => ?_
    refine h₄.elementEnd.bind fun _ s₅ t₅ hs₅ ht₅ h₅ => ?_
    have hlt₅ : s₅.size < s.size := lt_of_le_of_lt hs₅ (lt_trans hs₄ hlt₃)
    refine (alike_elements h₅).bind fun more s₆ t₆ hs₆ ht₆ h₆ => ?_
    exact .ok h₆
termination_by 16 * s.size

theorem alike_points {x y s t : Stream} {inside : List Bracket}
    (h : Alike x y (.square :: inside) s t) :
    ReadAlike x y inside s.points t.points := by
  rw [points, points]
  have h₁ := h.dropTerminators (List.cons_ne_nil _ _)
  generalize s.dropTerminators = skipped at h₁ ⊢
  generalize t.dropTerminators = skipped' at h₁ ⊢
  obtain ⟨_, s₁, hs₁⟩ := skipped
  obtain ⟨_, t₁, ht₁⟩ := skipped'
  replace h₁ : Alike x y (.square :: inside) s₁ t₁ := h₁
  have hclose := h₁.take? (.closing .square) inside rfl
  simp only
  generalize s₁.take? (.closing .square) = r at hclose ⊢
  generalize t₁.take? (.closing .square) = r' at hclose ⊢
  cases hclose with
  | some h₂ => exact .ok h₂
  | none =>
    refine (h₁.expect (.opening .round) _ rfl).bind fun start s₂ t₂ hs₂ ht₂ h₂ => ?_
    have hlt₂ : s₂.size < s.size := lt_of_lt_of_le hs₂ hs₁
    refine (alike_expression h₂).bind fun px s₃ t₃ hs₃ ht₃ h₃ => ?_
    refine (h₃.expect (.sign .comma) _ rfl).bind fun comma s₄ t₄ hs₄ ht₄ h₄ => ?_
    have hlt₄ : s₄.size < s.size := lt_trans hs₄ (lt_trans hs₃ hlt₂)
    refine (alike_expression h₄).bind fun py s₅ t₅ hs₅ ht₅ h₅ => ?_
    refine (h₅.expect (.closing .round) _ rfl).bind fun stop s₆ t₆ hs₆ ht₆ h₆ => ?_
    refine h₆.pointEnd.bind fun _ s₇ t₇ hs₇ ht₇ h₇ => ?_
    have hlt₇ : s₇.size < s.size := lt_of_le_of_lt hs₇ (lt_trans hs₆ (lt_trans hs₅ hlt₄))
    refine (alike_points h₇).bind fun more s₈ t₈ hs₈ ht₈ h₈ => ?_
    exact .ok h₈
termination_by 16 * s.size

end

/-! ## Statements -/

theorem Alike.optional (h : Alike x y inside s t) {r : Option (Parsed α s.size)}
    {r' : Option (Parsed α t.size)} (hr : TakenAlike x y inside r r') :
    (s.optional r).value = (t.optional r').value ∧
      Alike x y inside (s.optional r).stream (t.optional r').stream := by
  cases hr with
  | some h => exact ⟨rfl, h⟩
  | none => exact ⟨rfl, h⟩

theorem alike_varDecl (h : Alike x y inside s t) :
    ReadAlike x y inside s.varDecl t.varDecl := by
  unfold varDecl
  refine h.identifier.bind fun name s₁ t₁ hs₁ ht₁ h₁ => ?_
  obtain ⟨hkind, h₂⟩ := h₁.optional h₁.kind?
  simp only
  generalize s₁.optional s₁.kind? = r at hkind h₂ ⊢
  generalize t₁.optional t₁.kind? = r' at hkind h₂ ⊢
  obtain ⟨kind, s₂, hs₂⟩ := r
  obtain ⟨kind', t₂, ht₂⟩ := r'
  obtain rfl : kind = kind' := hkind
  replace h₂ : Alike x y inside s₂ t₂ := h₂
  obtain ⟨hunits, h₃⟩ := h₂.optional h₂.units?
  simp only
  generalize s₂.optional (s₂.units? false) = r at hunits h₃ ⊢
  generalize t₂.optional (t₂.units? false) = r' at hunits h₃ ⊢
  obtain ⟨units, s₃, hs₃⟩ := r
  obtain ⟨units', t₃, ht₃⟩ := r'
  obtain rfl : units = units' := hunits
  replace h₃ : Alike x y inside s₃ t₃ := h₃
  simp only [h₃.last_eq]
  exact .ok h₃

theorem alike_assigned (h : Alike x y inside s t) :
    ReadAlike x y inside s.assigned t.assigned := by
  unfold assigned
  have hequals := h.take? (.sign .equals) inside rfl
  generalize s.take? (.sign .equals) = r at hequals ⊢
  generalize t.take? (.sign .equals) = r' at hequals ⊢
  cases hequals with
  | none => exact .ok h
  | some h₁ =>
    refine (alike_annotated h₁).bind fun value s₂ t₂ hs₂ ht₂ h₂ => ?_
    exact .ok h₂

/-- Outside brackets a terminator ends the statement, and nothing else does. -/
theorem alike_terminator (h : Alike x y [] s t) : EndAlike x y s.terminator t.terminator := by
  obtain ⟨⟨token, span⟩, s', t', hs, ht, hnext, hnext', -, hend⟩ := h.next
  rw [terminator, terminator, hnext, hnext', h.here_eq]
  cases token with
  | terminator =>
    obtain ⟨-, -, rfl, rfl⟩ := hend rfl
    exact .ok
  | closing b => cases (hend rfl).1
  | _ => exact .error _

/-- **A statement is read alike, whatever follows behind its terminator,** and up to there. -/
theorem alike_statement (h : Alike x y [] s t) : EndAlike x y s.statement t.statement := by
  unfold statement
  refine (alike_varDecl h).bind_of .error fun decl s₁ t₁ hs₁ ht₁ h₁ => ?_
  refine (alike_assigned h₁).bind_of .error fun value s₂ t₂ hs₂ ht₂ h₂ => ?_
  have hend := alike_terminator h₂
  simp only
  generalize s₂.terminator = r at hend ⊢
  generalize t₂.terminator = r' at hend ⊢
  cases hend with
  | ok => exact .ok
  | error e => exact .error e

/-- **A statement that cannot be read is passed over up to its terminator.** -/
theorem Alike.skipStatement {s t : Stream} {inside : List Bracket} (h : Alike x y inside s t) :
    s.skipStatement inside.length = x := by
  obtain ⟨⟨token, span⟩, s', t', hs, _, hnext, _, hin, hend⟩ := h.next
  rw [Stream.skipStatement, hnext]
  simp only
  cases token with
  | opening b => exact (hin (b :: inside) rfl).skipStatement
  | closing b =>
    cases inside with
    | nil => cases (hend rfl).1
    | cons innermost outer =>
      by_cases hb : b = innermost
      · simp only [List.length_cons, Nat.add_one_ne_zero, and_false, ↓reduceIte,
          Nat.add_one_sub_one]
        exact (hin outer (if_pos hb)).skipStatement
      · cases (hend (if_neg hb)).1
  | terminator =>
    by_cases hinside : inside = []
    · obtain ⟨-, -, rfl, -⟩ := hend (if_pos hinside)
      rw [if_pos (List.length_eq_zero_iff.mpr hinside)]
    · rw [if_neg (mt List.length_eq_zero_iff.mp hinside)]
      exact (hin inside (if_neg hinside)).skipStatement
  | keyword k =>
    cases hk : k.startsDeclaration with
    | true => cases (hend (if_pos hk)).1
    | false =>
      simp only [hk, Bool.false_eq_true, ↓reduceIte]
      exact (hin inside (if_neg (Bool.eq_false_iff.mp hk))).skipStatement
  | sign _ | identifier _ | number _ | literal _ | typeName _ =>
    exact (hin inside rfl).skipStatement
termination_by s.size

end Stream

end StockFlow
