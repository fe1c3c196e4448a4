import StockFlow.Proofs.Grammar.Shape
import StockFlow.Proofs.Grammar.Words

/-!
# Trees as they are printed

* `Expr.tokens` — the tokens of the text of an expression
* `Expr.unplaced` — an expression without where it stands
* `Expr.mem_words_of_mem_tokens` — but for commas, what is printed of a tree was read of it
* `Expr.Fits.derives` — the tokens of a tree derive it
-/

namespace StockFlow

namespace Expr

mutual

/-- The tokens of the text of an expression. -/
def tokens : Expr → List Token
  | var name _ => [.identifier name]
  | number numeral _ => [.number numeral]
  | literal content _ => [.literal content]
  | composite none elements _ => .opening .brace :: (rowTokens elements ++ [.closing .brace])
  | composite (some type) elements _ =>
    .identifier type :: .opening .brace :: (rowTokens elements ++ [.closing .brace])
  | paren inner _ => .opening .round :: (inner.tokens ++ [.closing .round])
  | negate operand _ => .sign .minus :: operand.tokens
  | binary op left right _ => left.tokens ++ .sign op.sign :: right.tokens
  | keyed key value _ => .identifier key :: .sign .colon :: value.tokens
  | pair x y _ => .opening .round :: (x.tokens ++ .sign .comma :: (y.tokens ++ [.closing .round]))
  | table points _ => .opening .square :: (rowTokens points ++ [.closing .square])
  | units value note _ => value.tokens ++ note.tokens
  | index t i _ => t.tokens ++ .opening .square :: (i.tokens ++ [.closing .square])
  | call function args _ =>
    .identifier function :: .opening .round :: (rowTokens args ++ [.closing .round])

/-- The tokens of the texts of some expressions, with a comma between any two. -/
def rowTokens : List Expr → List Token
  | [] => []
  | e :: es => e.tokens ++ furtherTokens es

/-- The tokens of the texts of some expressions, with a comma before each. -/
def furtherTokens : List Expr → List Token
  | [] => []
  | e :: es => .sign .comma :: (e.tokens ++ furtherTokens es)

end

mutual

/-- An expression without where it stands. -/
def unplaced : Expr → Expr
  | var name _ => var name default
  | number numeral _ => number numeral default
  | literal content _ => literal content default
  | composite type elements _ => composite type (unplacedAll elements) default
  | paren inner _ => paren inner.unplaced default
  | negate operand _ => negate operand.unplaced default
  | binary op left right _ => binary op left.unplaced right.unplaced default
  | keyed key value _ => keyed key value.unplaced default
  | pair x y _ => pair x.unplaced y.unplaced default
  | table points _ => table (unplacedAll points) default
  | units value note _ => units value.unplaced note.unplaced default
  | index t i _ => index t.unplaced i.unplaced default
  | call function args _ => call function (unplacedAll args) default

/-- Expressions without where they stand. -/
def unplacedAll : List Expr → List Expr
  | [] => []
  | e :: es => e.unplaced :: unplacedAll es

end

/-- The same expression, wherever it stands. -/
def Same (e e' : Expr) : Prop := e'.unplaced = e.unplaced

/-- The same expressions in the same order, wherever they stand. -/
def SameAll (es es' : List Expr) : Prop := unplacedAll es' = unplacedAll es

section

variable {e e' x x' : Expr} {es es' : List Expr} {span span' : Span}

theorem Same.paren (h : e.Same e') : (paren e span).Same (paren e' span') :=
  congrArg (Expr.paren · default) h

theorem Same.negate (h : e.Same e') : (negate e span).Same (negate e' span') :=
  congrArg (Expr.negate · default) h

theorem Same.binary {op : BinaryOp} (h : e.Same e') (hx : x.Same x') :
    (binary op e x span).Same (binary op e' x' span') :=
  congrArg₂ (Expr.binary op · · default) h hx

theorem Same.keyed {key : String} (h : e.Same e') :
    (keyed key e span).Same (keyed key e' span') :=
  congrArg (Expr.keyed key · default) h

theorem Same.pair (h : e.Same e') (hx : x.Same x') :
    (pair e x span).Same (pair e' x' span') :=
  congrArg₂ (Expr.pair · · default) h hx

theorem Same.units (h : e.Same e') (hx : x.Same x') :
    (units e x span).Same (units e' x' span') :=
  congrArg₂ (Expr.units · · default) h hx

theorem Same.index (h : e.Same e') (hx : x.Same x') :
    (index e x span).Same (index e' x' span') :=
  congrArg₂ (Expr.index · · default) h hx

theorem Same.composite {type : Option String} (h : SameAll es es') :
    (composite type es span).Same (composite type es' span') :=
  congrArg (Expr.composite type · default) h

theorem Same.table (h : SameAll es es') : (table es span).Same (table es' span') :=
  congrArg (Expr.table · default) h

theorem Same.call {function : String} (h : SameAll es es') :
    (call function es span).Same (call function es' span') :=
  congrArg (Expr.call function · default) h

theorem SameAll.cons (h : e.Same e') (hes : SameAll es es') : SameAll (e :: es) (e' :: es') :=
  congrArg₂ List.cons h hes

end

/-- To show something of an expression, its parts may be known to satisfy it. -/
theorem induction {P : Expr → Prop} (var : ∀ name span, P (var name span))
    (number : ∀ numeral span, P (number numeral span))
    (literal : ∀ content span, P (literal content span))
    (composite : ∀ type elements span, (∀ e ∈ elements, P e) → P (composite type elements span))
    (paren : ∀ inner span, P inner → P (paren inner span))
    (negate : ∀ operand span, P operand → P (negate operand span))
    (binary : ∀ op left right span, P left → P right → P (binary op left right span))
    (keyed : ∀ key value span, P value → P (keyed key value span))
    (pair : ∀ x y span, P x → P y → P (pair x y span))
    (table : ∀ points span, (∀ e ∈ points, P e) → P (table points span))
    (units : ∀ value note span, P value → P note → P (units value note span))
    (index : ∀ t i span, P t → P i → P (index t i span))
    (call : ∀ function args span, (∀ e ∈ args, P e) → P (call function args span)) (e : Expr) :
    P e :=
  @Expr.rec P (fun es => ∀ e ∈ es, P e) var number literal composite paren negate binary keyed pair
    table units index call nofun (fun _ _ hhead htail => List.forall_mem_cons.mpr ⟨hhead, htail⟩) e

/-! ## What is printed was read -/

variable {e : Expr} {es : List Expr} {t : Token} {w : Word}

theorem mem_furtherTokens (h : t ∈ furtherTokens es) :
    t = .sign .comma ∨ ∃ e ∈ es, t ∈ e.tokens := by
  induction es with
  | nil => cases h
  | cons e es ih =>
    rw [furtherTokens, List.mem_cons, List.mem_append] at h
    rcases h with h | h | h
    · exact Or.inl h
    · exact Or.inr ⟨e, List.mem_cons_self .., h⟩
    · refine (ih h).imp_right ?_
      rintro ⟨e', he', ht⟩
      exact ⟨e', List.mem_cons_of_mem e he', ht⟩

theorem mem_rowTokens (h : t ∈ rowTokens es) : t = .sign .comma ∨ ∃ e ∈ es, t ∈ e.tokens := by
  cases es with
  | nil => cases h
  | cons e es =>
    refine mem_furtherTokens ?_
    rw [furtherTokens]
    exact List.mem_cons_of_mem _ h

theorem mem_elementWords (he : e ∈ es) (h : w ∈ e.words) : w ∈ elementWords es := by
  induction es with
  | nil => cases he
  | cons e' es ih =>
    rw [elementWords, List.mem_append, List.mem_cons]
    rcases List.mem_cons.mp he with rfl | he
    · exact Or.inl h
    · exact Or.inr (Or.inr (ih he))

theorem mem_argumentWords (he : e ∈ es) (h : w ∈ e.words) : w ∈ argumentWords es := by
  have hfurther : ∀ es : List Expr, e ∈ es → w ∈ furtherWords es := by
    intro es he
    induction es with
    | nil => cases he
    | cons e' es ih =>
      rw [furtherWords, List.mem_cons, List.mem_append]
      rcases List.mem_cons.mp he with rfl | he
      · exact Or.inr (Or.inl h)
      · exact Or.inr (Or.inr (ih he))
  cases es with
  | nil => cases he
  | cons e' es =>
    rw [argumentWords, List.mem_append]
    rcases List.mem_cons.mp he with rfl | he
    · exact Or.inl h
    · exact Or.inr (hfurther es he)

/-- What is printed in a row is a comma or among the words of the row. -/
theorem mem_words_of_mem_rowTokens {ws : List Word} (h : t ∈ rowTokens es)
    (hread : ∀ e ∈ es, t ∈ e.tokens → t = .sign .comma ∨ .token t ∈ e.words)
    (hws : ∀ e ∈ es, .token t ∈ e.words → .token t ∈ ws) :
    t = .sign .comma ∨ .token t ∈ ws := by
  rcases mem_rowTokens h with h | ⟨e, he, ht⟩
  · exact Or.inl h
  · exact (hread e he ht).imp_right (hws e he)

/-- **But for commas, what is printed of a tree was read of it.** -/
theorem mem_words_of_mem_tokens {e : Expr} (h : t ∈ e.tokens) :
    t = .sign .comma ∨ .token t ∈ e.words := by
  induction e using Expr.induction with
  | var | number | literal =>
    simp only [tokens, List.mem_singleton] at h
    simp only [words, h, List.mem_singleton, or_true]
  | composite type elements span ih =>
    have hrow (hrow : t ∈ rowTokens elements) :=
      mem_words_of_mem_rowTokens hrow ih fun _ => mem_elementWords
    cases type <;>
    · simp only [tokens, words, List.mem_cons, List.mem_append, List.not_mem_nil] at h ⊢
      grind
  | table points span ih =>
    have hrow (hrow : t ∈ rowTokens points) :=
      mem_words_of_mem_rowTokens hrow ih fun _ => mem_elementWords
    simp only [tokens, words, List.mem_cons, List.mem_append, List.not_mem_nil] at h ⊢
    grind
  | call function args span ih =>
    have hrow (hrow : t ∈ rowTokens args) :=
      mem_words_of_mem_rowTokens hrow ih fun _ => mem_argumentWords
    simp only [tokens, words, List.mem_cons, List.mem_append, List.not_mem_nil] at h ⊢
    grind
  | paren _ _ ih | negate _ _ ih | keyed _ _ _ ih =>
    simp only [tokens, words, List.mem_cons, List.mem_append, List.not_mem_nil] at h ⊢
    grind
  | binary _ _ _ _ ih ih' | pair _ _ _ ih ih' | units _ _ _ ih ih' | index _ _ _ ih ih' =>
    simp only [tokens, words, List.mem_cons, List.mem_append, List.not_mem_nil] at h ⊢
    grind

/-! ## What is printed is derived

It is derived as the tree without where it stands, from tokens that do not say where they stand. -/

end Expr

/-- A token that does not say where it stands. -/
def Token.unplaced (t : Token) : Lexeme := ⟨t, default⟩

namespace Expr

@[simp] theorem span_unplaced (e : Expr) : e.unplaced.span = default := by
  cases e <;> rfl

theorem unplacedAll_eq_map (es : List Expr) : unplacedAll es = es.map unplaced := by
  induction es with
  | nil => rfl
  | cons e es ih => rw [unplacedAll, ih, List.map_cons]

theorem unplaced_unplaced (e : Expr) : e.unplaced.unplaced = e.unplaced := by
  have hall {es : List Expr} (h : ∀ e ∈ es, e.unplaced.unplaced = e.unplaced) :
      unplacedAll (unplacedAll es) = unplacedAll es := by
    rw [unplacedAll_eq_map es, unplacedAll_eq_map, List.map_map]
    exact List.map_congr_left h
  induction e using Expr.induction with
  | var | number | literal => rfl
  | composite _ _ _ ih | table _ _ ih | call _ _ _ ih => simp only [unplaced, hall ih]
  | paren _ _ ih | negate _ _ ih | keyed _ _ _ ih => simp only [unplaced, ih]
  | binary _ _ _ _ ih ih' | pair _ _ _ ih ih' | units _ _ _ ih ih' | index _ _ _ ih ih' =>
    simp only [unplaced, ih, ih']

/-- A tree as a member of a row that is printed. -/
def printed (e : Expr) : Member := ⟨e.tokens.map Token.unplaced, e.unplaced⟩

theorem tree_printed (es : List Expr) :
    (es.map printed).map Member.tree = unplacedAll es := by
  rw [unplacedAll_eq_map, List.map_map]
  rfl

theorem row_printed (es : List Expr) :
    Row ((rowTokens es).map Token.unplaced) (es.map printed) := by
  induction es with
  | nil => exact .done (List.forall_mem_nil _)
  | cons e es ih =>
    cases es with
    | nil =>
      rw [rowTokens, furtherTokens, List.map_append]
      exact .member (m := e.printed) (List.forall_mem_nil _) (.nothing fun l hl => by cases hl)
        (.done (List.forall_mem_nil _))
    | cons e' es =>
      rw [rowTokens, furtherTokens, List.map_append, List.map_cons]
      exact .member (m := e.printed) (List.forall_mem_nil _) .comma ih

theorem arguments_printed (es : List Expr) :
    Arguments ((rowTokens es).map Token.unplaced) (es.map printed) := by
  induction es with
  | nil => exact .none
  | cons e es ih =>
    cases es with
    | nil =>
      rw [rowTokens, furtherTokens, List.append_nil]
      exact .last e.printed
    | cons e' es =>
      rw [rowTokens, furtherTokens, List.map_append, List.map_cons]
      exact Arguments.comma (m := e.printed) ih

theorem joined_unplaced (op : BinaryOp) (left right : Expr) :
    Stream.joined op left.unplaced right.unplaced =
      .binary op left.unplaced right.unplaced default := by
  rw [Stream.joined, span_unplaced, span_unplaced]
  rfl

/-- **The tokens of a tree derive it.** -/
theorem Fits.derives {k : Level} {e : Expr} (h : Fits k e) :
    Derives k (e.tokens.map Token.unplaced) e.unplaced := by
  induction h with
  | bare _ ih => exact .bare ih
  | ofProduct _ ih => exact .ofProduct ih
  | ofPower _ ih => exact .ofPower ih
  | ofNegation _ ih => exact .ofNegation ih
  | ofLookup _ ih => exact .ofLookup ih
  | ofValue _ ih => exact .ofValue ih
  | @units _ content _ _ _ ih =>
    have h := @Derives.units _ _ content default ih
    rw [span_unplaced] at h
    simp only [tokens, unplaced, List.map_append]
    exact h
  | sum hop _ _ ih ih' =>
    simp only [tokens, unplaced, List.map_append, List.map_cons, ← joined_unplaced]
    exact .sum hop ih ih'
  | product hop _ _ ih ih' =>
    simp only [tokens, unplaced, List.map_append, List.map_cons, ← joined_unplaced]
    exact .product hop ih ih'
  | power _ _ ih ih' =>
    simp only [tokens, unplaced, List.map_append, List.map_cons, ← joined_unplaced]
    exact .power ih ih'
  | negate _ ih =>
    have h := @Derives.negate _ _ default ih
    rw [span_unplaced] at h
    simp only [tokens, unplaced, List.map_cons]
    exact h
  | index _ _ ih ih' =>
    have h := @Derives.index _ _ _ _ default default ih ih'
    rw [span_unplaced] at h
    simp only [tokens, unplaced, List.map_append, List.map_cons]
    exact h
  | var => exact .var
  | number h => exact .number h
  | literal => exact .literal
  | paren _ ih =>
    simp only [tokens, unplaced, List.map_append, List.map_cons]
    exact .paren ih
  | @composite type es _ _ ih =>
    cases type with
    | none =>
      simp only [tokens, unplaced, List.map_append, List.map_cons, ← tree_printed]
      exact .composite (row_printed es) (List.forall_mem_map.mpr ih)
    | some type =>
      simp only [tokens, unplaced, List.map_append, List.map_cons, ← tree_printed]
      exact .typed (row_printed es) (List.forall_mem_map.mpr ih)
  | @table es _ _ ih =>
    simp only [tokens, unplaced, List.map_append, List.map_cons, ← tree_printed]
    exact .table (row_printed es) (List.forall_mem_map.mpr ih)
  | @call _ es _ _ ih =>
    simp only [tokens, unplaced, List.map_append, List.map_cons, ← tree_printed]
    exact .call (arguments_printed es) (List.forall_mem_map.mpr ih)
  | @keyed key _ _ _ ih =>
    have h := @Derives.keyed _ key _ default default ih
    rw [span_unplaced] at h
    simp only [tokens, unplaced, List.map_cons]
    exact h
  | pair _ _ ih ih' =>
    simp only [tokens, unplaced, List.map_append, List.map_cons]
    exact .pair ih ih'

end Expr

end StockFlow
