import StockFlow.Proofs.Grammar.Printed

/-!
# Tokens are read as the tree that they derive

A tree is read from the tokens from which it is derived, if the token behind them does not go on
with it. So it is read back from the tokens of its text.

* `Token.binding`, `Follows` — which tokens go on with an expression before them
* `Stream.Gives` — a reader gives an answer and leaves these tokens
* `Stream.Reaches` — a reader that leans left comes as far as this expression
* `Expr.Derives.rereads` — the tokens that derive a tree are read as that tree at its level
* `Expr.Fits.rereads` — an expression, perhaps with units, is read back from the tokens of its text
-/

namespace StockFlow

/-- How tightly a token binds that goes on with the expression before it; zero if none does. -/
def Token.binding : Token → Nat
  | literal _ => 1
  | sign .plus | sign .minus => 2
  | sign .star | sign .slash => 3
  | sign .caret => 4
  | opening .square => 5
  | opening .round | opening .brace => 6
  | _ => 0

theorem Token.binding_sign (op : BinaryOp) : (sign op.sign).binding = op.precedence + 1 := by
  cases op <;> rfl

/-- The next token does not bind as tightly as `k` to what stands before it. -/
def Follows (k : Nat) (ts : List Token) : Prop := ∀ t ∈ ts.head?, t.binding < k

namespace Follows

variable {k k' : Nat} {t : Token} {ts : List Token}

theorem cons (h : t.binding < k) : Follows k (t :: ts) := by
  intro t' ht
  obtain rfl := Option.some.inj ht
  exact h

theorem mono (h : Follows k ts) (hk : k ≤ k') : Follows k' ts :=
  fun t ht => Nat.lt_of_lt_of_le (h t ht) hk

end Follows

namespace Stream

open StockFlow.Expr (Row Arguments Member OnlyTerminators Separates)

variable {s : Stream} {t : Token} {ts us : List Token} {k : Nat}

/-- The tokens still to be read, without where they stand. -/
def tokens (s : Stream) : List Token := s.rest.map Lexeme.token

/-! ## Single tokens -/

theorem tokens_of_next? {r : Parsed Lexeme s.size} (h : s.next? = some r) :
    s.tokens = r.value.token :: r.stream.tokens := by
  rw [tokens, rest_of_next? h, List.map_cons]
  rfl

theorem exists_next? (h : s.tokens = t :: ts) :
    ∃ span s₁ h₁, s.next? = some ⟨⟨t, span⟩, s₁, h₁⟩ ∧ s₁.tokens = ts := by
  cases hnext : s.next? with
  | none =>
    rw [tokens, rest_of_next?_none hnext] at h
    cases h
  | some r =>
    obtain ⟨⟨t', span⟩, s₁, h₁⟩ := r
    obtain ⟨rfl, hs₁⟩ := List.cons.inj ((tokens_of_next? hnext).symm.trans h)
    exact ⟨span, s₁, h₁, rfl, hs₁⟩

theorem next?_eq_none (h : s.tokens = []) : s.next? = none := by
  cases hnext : s.next? with
  | none => rfl
  | some r => cases (tokens_of_next? hnext).symm.trans h

/-- The next token does not go on with what stands before it. -/
theorem binding_lt_of_next? {r : Parsed Lexeme s.size} (hf : Follows k s.tokens)
    (h : s.next? = some r) : r.value.token.binding < k :=
  hf _ (by rw [tokens_of_next? h]; rfl)

theorem exists_take? (h : s.tokens = t :: ts) :
    ∃ span s₁ h₁, s.take? t = some ⟨span, s₁, h₁⟩ ∧ s₁.tokens = ts := by
  obtain ⟨span, s₁, h₁, hnext, hs₁⟩ := exists_next? h
  exact ⟨span, s₁, h₁, by rw [take?, hnext]; exact if_pos rfl, hs₁⟩

theorem take?_eq_none (h : t ∉ s.tokens.head?) : s.take? t = none := by
  unfold take?
  split
  · next l s₁ h₁ hnext =>
    refine if_neg ?_
    rintro rfl
    exact h (by rw [tokens_of_next? hnext]; rfl)
  · rfl

theorem take?_eq_none_of_follows (hf : Follows k s.tokens) (ht : k ≤ t.binding) :
    s.take? t = none :=
  take?_eq_none fun hmem => absurd (hf t hmem) (Nat.not_lt.mpr ht)

theorem dropTerminators_eq (h : .terminator ∉ s.tokens.head?) :
    s.dropTerminators = ⟨(), s, s.lt_succ⟩ := by
  rw [dropTerminators]
  split
  · next span more hrest =>
    refine absurd ?_ h
    rw [tokens, hrest]
    rfl
  · rfl

theorem tokens_dropTerminators (s : Stream) :
    s.dropTerminators.stream.tokens = s.tokens.dropWhile (· = .terminator) := by
  fun_induction dropTerminators s with
  | case1 s span more hrest _ s₁ _ htail ih =>
    rw [htail] at ih
    have hs : s.tokens = .terminator :: more.map Lexeme.token := by
      rw [tokens, hrest, List.map_cons]
    rw [hs]
    exact ih
  | case2 s hhead =>
    rw [tokens]
    cases hrest : s.rest with
    | nil => rfl
    | cons l more =>
      have hl : ¬l.token = .terminator := fun hl => hhead l.span more (by rw [hrest, ← hl])
      rw [List.map_cons, List.dropWhile_cons_of_neg (by simpa using hl)]

/-- Terminators are passed over up to a token that is none. -/
theorem exists_dropTerminators {skipped : List Lexeme} (hskip : OnlyTerminators skipped)
    (hs : s.tokens = skipped.map Lexeme.token ++ ts) (hts : .terminator ∉ ts.head?) :
    ∃ s₁ h₁, s.dropTerminators = ⟨(), s₁, h₁⟩ ∧ s₁.tokens = ts := by
  refine ⟨s.dropTerminators.stream, s.dropTerminators.lt, rfl, ?_⟩
  have hall : ∀ t ∈ skipped.map Lexeme.token, decide (t = .terminator) = true :=
    List.forall_mem_map.mpr fun l hl => decide_eq_true (hskip l hl)
  rw [tokens_dropTerminators, hs, List.dropWhile_append_of_pos hall]
  cases ts with
  | nil => rfl
  | cons t ts => exact List.dropWhile_cons_of_neg fun h => hts (of_decide_eq_true h ▸ rfl)

/-! ## Answers of readers -/

/-- A reader gives an answer of this kind and leaves these tokens. -/
def Gives {ε α : Type} {n : Nat} (x : Except ε (Parsed α n)) (P : α → Prop) (ts : List Token) :
    Prop :=
  ∃ a s₁ h₁, x = .ok ⟨a, s₁, h₁⟩ ∧ P a ∧ s₁.tokens = ts

/-- What goes on with an answer of this kind gives an answer. -/
theorem Gives.bind {ε α β : Type} {n m : Nat} {x : Except ε (Parsed α n)}
    {f : Parsed α n → Except ε (Parsed β m)} {P : α → Prop} {Q : β → Prop} (hx : Gives x P ts)
    (hf : ∀ a s₁ h₁, P a → s₁.tokens = ts → Gives (f ⟨a, s₁, h₁⟩) Q us) :
    Gives (x >>= f) Q us := by
  obtain ⟨a, s₁, h₁, rfl, ha, hs₁⟩ := hx
  exact hf a s₁ h₁ ha hs₁

/-- An answer that is known is handed on. -/
theorem Gives.after {ε α β : Type} {n m : Nat} {x : Except ε (Parsed α n)}
    {f : Parsed α n → Except ε (Parsed β m)} {r : Parsed α n} {Q : β → Prop} (hx : x = .ok r)
    (h : Gives (f r) Q us) : Gives (x >>= f) Q us := by
  rw [hx]
  exact h

theorem gives_expect (h : s.tokens = t :: ts) : Gives (s.expect t) (fun _ => True) ts := by
  obtain ⟨span, s₁, h₁, htake, hs₁⟩ := exists_take? h
  exact ⟨span, s₁, h₁, by rw [expect, htake], trivial, hs₁⟩

theorem gives_identifier {name : String} (h : s.tokens = .identifier name :: ts) :
    Gives s.identifier (fun r => r.1 = name) ts := by
  obtain ⟨span, s₁, h₁, hnext, hs₁⟩ := exists_next? h
  exact ⟨(name, span), s₁, h₁, by rw [identifier, hnext], rfl, hs₁⟩

theorem exists_additive? {op : BinaryOp} (hop : op.precedence = 1)
    (h : s.tokens = .sign op.sign :: ts) :
    ∃ s₁ h₁, s.additive? = some ⟨op, s₁, h₁⟩ ∧ s₁.tokens = ts := by
  obtain ⟨span, s₁, h₁, hnext, hs₁⟩ := exists_next? h
  refine ⟨s₁, h₁, ?_, hs₁⟩
  rw [additive?, hnext]
  cases op <;> first | rfl | cases hop

theorem exists_multiplicative? {op : BinaryOp} (hop : op.precedence = 2)
    (h : s.tokens = .sign op.sign :: ts) :
    ∃ s₁ h₁, s.multiplicative? = some ⟨op, s₁, h₁⟩ ∧ s₁.tokens = ts := by
  obtain ⟨span, s₁, h₁, hnext, hs₁⟩ := exists_next? h
  refine ⟨s₁, h₁, ?_, hs₁⟩
  rw [multiplicative?, hnext]
  cases op <;> first | rfl | cases hop

theorem exists_units? {content : String} (h : s.tokens = .literal content :: ts) :
    ∃ span s₁ h₁, s.units? false = some ⟨.literal content span, s₁, h₁⟩ ∧ s₁.tokens = ts := by
  obtain ⟨span, s₁, h₁, hnext, hs₁⟩ := exists_next? h
  exact ⟨span, s₁, h₁, by rw [units?, hnext], hs₁⟩

theorem additive?_eq_none (hf : Follows 2 s.tokens) : s.additive? = none := by
  unfold additive?
  split
  · next hnext => exact absurd (binding_lt_of_next? hf hnext) (Nat.lt_irrefl _)
  · next hnext => exact absurd (binding_lt_of_next? hf hnext) (Nat.lt_irrefl _)
  · rfl

theorem multiplicative?_eq_none (hf : Follows 3 s.tokens) : s.multiplicative? = none := by
  unfold multiplicative?
  split
  · next hnext => exact absurd (binding_lt_of_next? hf hnext) (Nat.lt_irrefl _)
  · next hnext => exact absurd (binding_lt_of_next? hf hnext) (Nat.lt_irrefl _)
  · rfl

theorem units?_eq_none (hf : Follows 1 s.tokens) : s.units? false = none := by
  unfold units?
  split
  · next hnext => exact absurd (binding_lt_of_next? hf hnext) (Nat.lt_irrefl _)
  · exact if_neg (by decide)
  · rfl

/-! ## Reading a tree back -/

/-- The tokens `us` are read as `e`, wherever it stands, if what follows does not bind as tightly as
`k`. -/
def Rereads (read : (s : Stream) → Parse Expr s.size) (k : Nat) (us : List Token) (e : Expr) :
    Prop :=
  ∀ s ts, s.tokens = us ++ ts → Follows k ts → Gives (read s) e.Same ts

/-- Reading the tokens `us` comes as far as `e`, from where it goes on with `tail`, if what follows
does not bind as tightly as `k`. -/
def Reaches (read : (s : Stream) → Parse Expr s.size)
    (tail : Expr → (s : Stream) → Parse Expr (s.size + 1)) (k : Nat) (us : List Token) (e : Expr) :
    Prop :=
  ∀ s ts, s.tokens = us ++ ts → Follows k ts → ∃ e' s', e.Same e' ∧ s'.tokens = ts ∧
    ∀ P vs, Gives (tail e' s') P vs → Gives (read s) P vs

section

variable {read inner : (s : Stream) → Parse Expr s.size}
  {tail : Expr → (s : Stream) → Parse Expr (s.size + 1)} {k' : Nat} {e left right : Expr}
  {us us' : List Token} {op : BinaryOp} {span : Span}

/-- A reader that leans left ends where its tail finds nothing to go on with. -/
theorem Reaches.rereads (h : Reaches read tail k' us e) (hk : k ≤ k')
    (hstop : ∀ e' s', Follows k s'.tokens → tail e' s' = .ok ⟨e', s', s'.lt_succ⟩) :
    Rereads read k us e := by
  intro s ts hs hf
  obtain ⟨e', s', hsame, rfl, hgo⟩ := h s ts hs (hf.mono hk)
  exact hgo _ _ ⟨e', s', _, hstop e' s' hf, hsame, rfl⟩

/-- A reader that leans left comes as far as its first operand. -/
theorem Rereads.reaches (h : Rereads inner k us e)
    (hstart : ∀ s e' s' h', inner s = .ok ⟨e', s', h'⟩ → ∀ P vs, Gives (tail e' s') P vs →
      Gives (read s) P vs) : Reaches read tail k us e := by
  intro s ts hs hf
  obtain ⟨e', s', h', hread, hsame, hs'⟩ := h s ts hs hf
  exact ⟨e', s', hsame, hs', hstart s e' s' h' hread⟩

/-! ### Sums -/

theorem expressionTail_stop (left : Expr) (s : Stream) (hf : Follows 2 s.tokens) :
    expressionTail left s = .ok ⟨left, s, s.lt_succ⟩ := by
  rw [expressionTail, additive?_eq_none hf]
  rfl

theorem expression_start (s : Stream) (left : Expr) (s₁ : Stream) (h₁ : s₁.size < s.size)
    (h : s.product = .ok ⟨left, s₁, h₁⟩) (P : Expr → Prop) (vs : List Token)
    (htail : Gives (expressionTail left s₁) P vs) : Gives s.expression P vs := by
  rw [expression]
  exact .after h (htail.bind fun e s₂ h₂ he hs₂ => ⟨e, s₂, _, rfl, he, hs₂⟩)

theorem Reaches.sum (hop : op.precedence = 1) (hleft : Reaches expression expressionTail 3 us left)
    (hright : Rereads product 3 us' right) :
    Reaches expression expressionTail 3 (us ++ .sign op.sign :: us')
      (.binary op left right span) := by
  intro s ts hs hf
  rw [List.append_assoc, List.cons_append] at hs
  have hsign : (Token.sign op.sign).binding < 3 := by
    rw [Token.binding_sign, hop]
    decide
  obtain ⟨left', s₁, hsame, hs₁, hgo⟩ := hleft s _ hs (.cons hsign)
  obtain ⟨s₂, h₂, hadd, hs₂⟩ := exists_additive? hop hs₁
  obtain ⟨right', s₃, h₃, hread, hsame', hs₃⟩ := hright s₂ ts hs₂ hf
  refine ⟨joined op left' right', s₃, hsame.binary hsame', hs₃, fun P vs htail => hgo P vs ?_⟩
  rw [expressionTail, hadd]
  exact .after hread (htail.bind fun e s₄ h₄ he hs₄ => ⟨e, s₄, _, rfl, he, hs₄⟩)

/-! ### Products -/

theorem productTail_stop (left : Expr) (s : Stream) (hf : Follows 3 s.tokens) :
    productTail left s = .ok ⟨left, s, s.lt_succ⟩ := by
  rw [productTail, multiplicative?_eq_none hf]
  rfl

theorem product_start (s : Stream) (left : Expr) (s₁ : Stream) (h₁ : s₁.size < s.size)
    (h : s.power = .ok ⟨left, s₁, h₁⟩) (P : Expr → Prop) (vs : List Token)
    (htail : Gives (productTail left s₁) P vs) : Gives s.product P vs := by
  rw [product]
  exact .after h (htail.bind fun e s₂ h₂ he hs₂ => ⟨e, s₂, _, rfl, he, hs₂⟩)

theorem Reaches.product (hop : op.precedence = 2)
    (hleft : Reaches Stream.product productTail 4 us left) (hright : Rereads power 4 us' right) :
    Reaches Stream.product productTail 4 (us ++ .sign op.sign :: us')
      (.binary op left right span) := by
  intro s ts hs hf
  rw [List.append_assoc, List.cons_append] at hs
  have hsign : (Token.sign op.sign).binding < 4 := by
    rw [Token.binding_sign, hop]
    decide
  obtain ⟨left', s₁, hsame, hs₁, hgo⟩ := hleft s _ hs (.cons hsign)
  obtain ⟨s₂, h₂, hmul, hs₂⟩ := exists_multiplicative? hop hs₁
  obtain ⟨right', s₃, h₃, hread, hsame', hs₃⟩ := hright s₂ ts hs₂ hf
  refine ⟨joined op left' right', s₃, hsame.binary hsame', hs₃, fun P vs htail => hgo P vs ?_⟩
  rw [productTail, hmul]
  exact .after hread (htail.bind fun e s₄ h₄ he hs₄ => ⟨e, s₄, _, rfl, he, hs₄⟩)

/-! ### Powers and negations -/

theorem rereads_power (hbase : Rereads negation 5 us left) (hexponent : Rereads power 4 us' right) :
    Rereads power 4 (us ++ .sign .caret :: us') (.binary .pow left right span) := by
  intro s ts hs hf
  rw [List.append_assoc, List.cons_append] at hs
  rw [power]
  refine (hbase s _ hs (.cons (by decide))).bind fun base' s₁ h₁ hsame hs₁ => ?_
  obtain ⟨span', s₂, h₂, htake, hs₂⟩ := exists_take? hs₁
  simp only [htake]
  refine (hexponent s₂ ts hs₂ hf).bind fun exponent' s₃ h₃ hsame' hs₃ => ?_
  exact ⟨_, s₃, _, rfl, hsame.binary hsame', hs₃⟩

theorem rereads_power_of_negation (h : Rereads negation 5 us e) : Rereads power 4 us e := by
  intro s ts hs hf
  rw [power]
  refine (h s ts hs (hf.mono (by decide))).bind fun base s₁ h₁ hsame hs₁ => ?_
  have hnone : s₁.take? (.sign .caret) = none :=
    take?_eq_none_of_follows (hs₁ ▸ hf) (Nat.le_refl 4)
  simp only [hnone]
  exact ⟨base, s₁, _, rfl, hsame, hs₁⟩

theorem rereads_negate (h : Rereads negation 5 us e) :
    Rereads negation 5 (.sign .minus :: us) (.negate e span) := by
  intro s ts hs hf
  rw [List.cons_append] at hs
  obtain ⟨sign, s₁, h₁, htake, hs₁⟩ := exists_take? hs
  rw [negation, htake]
  exact (h s₁ ts hs₁ hf).bind fun operand s₂ h₂ hsame hs₂ => ⟨_, s₂, _, rfl, hsame.negate, hs₂⟩

theorem rereads_negation_of_lookup (h : Rereads lookup 5 us e) (hhead : .sign .minus ∉ us.head?)
    (hne : us ≠ []) : Rereads negation 5 us e := by
  intro s ts hs hf
  have hnone : s.take? (.sign .minus) = none := by
    refine take?_eq_none ?_
    rwa [hs, List.head?_append_of_ne_nil _ hne]
  rw [negation, hnone]
  exact h s ts hs hf

/-! ### Look-ups -/

theorem lookupTail_stop (table : Expr) (s : Stream) (hf : Follows 5 s.tokens) :
    lookupTail table s = .ok ⟨table, s, s.lt_succ⟩ := by
  have hnone : s.take? (.opening .square) = none := take?_eq_none_of_follows hf (Nat.le_refl 5)
  rw [lookupTail, hnone]
  rfl

theorem lookup_start (s : Stream) (table : Expr) (s₁ : Stream) (h₁ : s₁.size < s.size)
    (h : s.value = .ok ⟨table, s₁, h₁⟩) (P : Expr → Prop) (vs : List Token)
    (htail : Gives (lookupTail table s₁) P vs) : Gives s.lookup P vs := by
  rw [lookup]
  exact .after h (htail.bind fun e s₂ h₂ he hs₂ => ⟨e, s₂, _, rfl, he, hs₂⟩)

theorem Reaches.index (ht : Reaches lookup lookupTail 6 us left)
    (hi : Rereads expression 2 us' right) :
    Reaches lookup lookupTail 6 (us ++ .opening .square :: (us' ++ [.closing .square]))
      (.index left right span) := by
  intro s ts hs hf
  simp only [List.append_assoc, List.cons_append, List.nil_append] at hs
  obtain ⟨table, s₁, hsame, hs₁, hgo⟩ := ht s _ hs (.cons (by decide))
  obtain ⟨bracket, s₂, h₂, htake, hs₂⟩ := exists_take? hs₁
  obtain ⟨index, s₃, h₃, hread, hsame', hs₃⟩ := hi s₂ _ hs₂ (.cons (by decide))
  obtain ⟨stop, s₄, h₄, hclose, -, hs₄⟩ := gives_expect hs₃
  refine ⟨.index table index ⟨table.span.start, stop.stop⟩, s₄, hsame.index hsame', hs₄, ?_⟩
  intro P vs htail
  refine hgo P vs ?_
  rw [lookupTail, htake]
  exact .after hread (.after hclose
    (htail.bind fun e s₅ h₅ he hs₅ => ⟨e, s₅, _, rfl, he, hs₅⟩))

/-! ### Values -/

theorem rereads_var {name : String} : Rereads value 6 [.identifier name] (.var name span) := by
  intro s ts hs hf
  obtain ⟨span', s₁, h₁, hnext, hs₁⟩ := exists_next? hs
  rw [value, hnext]
  simp only
  -- a bracket behind the name would make it a call or a structured value
  split
  · next hround => exact absurd (binding_lt_of_next? (hs₁ ▸ hf) hround) (Nat.lt_irrefl _)
  · next hbrace => exact absurd (binding_lt_of_next? (hs₁ ▸ hf) hbrace) (Nat.lt_irrefl _)
  · exact ⟨.var name span', s₁, h₁, rfl, rfl, hs₁⟩

theorem rereads_number {numeral : String} (h : (Decimal.Number.parse? numeral.toList).isSome) :
    Rereads value 6 [.number numeral] (.number numeral span) := by
  intro s ts hs _
  obtain ⟨span', s₁, h₁, hnext, hs₁⟩ := exists_next? hs
  rw [value, hnext]
  simp only [h, if_true]
  exact ⟨.number numeral span', s₁, h₁, rfl, rfl, hs₁⟩

theorem rereads_literal {content : String} :
    Rereads value 6 [.literal content] (.literal content span) := by
  intro s ts hs _
  obtain ⟨span', s₁, h₁, hnext, hs₁⟩ := exists_next? hs
  rw [value, hnext]
  exact ⟨.literal content span', s₁, h₁, rfl, rfl, hs₁⟩

theorem rereads_paren (h : Rereads expression 2 us e) :
    Rereads value 6 (.opening .round :: (us ++ [.closing .round])) (.paren e span) := by
  intro s ts hs _
  simp only [List.append_assoc, List.cons_append, List.nil_append] at hs
  obtain ⟨bracket, s₁, h₁, hnext, hs₁⟩ := exists_next? hs
  rw [value, hnext]
  refine (h s₁ _ hs₁ (.cons (by decide))).bind fun inner' s₂ h₂ hsame hs₂ => ?_
  refine (gives_expect hs₂).bind fun stop s₃ h₃ _ hs₃ => ?_
  exact ⟨_, s₃, _, rfl, hsame.paren, hs₃⟩

end

/-! ### Rows

What stands behind a member of a row does not go on with it. -/

variable {ls separator : List Lexeme} {ms : List Member} {e : Expr} {us : List Token} {span : Span}

/-- The members of a row were read, wherever they stand. -/
def SameRow (ms : List Member) (r : List Expr × Pos) : Prop :=
  Expr.SameAll (ms.map Member.tree) r.1

/-- An element whose value is read back. -/
def RereadsElement (us : List Token) (e : Expr) : Prop :=
  ∃ key us' value span, us = .identifier key :: .sign .colon :: us' ∧ e = .keyed key value span ∧
    Rereads annotated 1 us' value

/-- A point whose coordinates are read back. -/
def RereadsPoint (us : List Token) (e : Expr) : Prop :=
  ∃ us' us'' x y span,
    us = .opening .round :: (us' ++ .sign .comma :: (us'' ++ [.closing .round])) ∧
      e = .pair x y span ∧ Rereads expression 2 us' x ∧ Rereads expression 2 us'' y

theorem gives_argumentsFrom (hrow : Arguments ls ms) (hne : ms ≠ [])
    (hms : ∀ m ∈ ms, Rereads expression 2 (m.used.map Lexeme.token) m.tree)
    (hs : s.tokens = ls.map Lexeme.token ++ .closing .round :: ts) :
    Gives s.argumentsFrom (SameRow ms) ts := by
  induction hrow generalizing s with
  | none => exact absurd rfl hne
  | last m =>
    rw [argumentsFrom]
    refine (hms m (List.mem_singleton_self m) s _ hs (.cons (by decide))).bind ?_
    intro arg s₁ h₁ hsame hs₁
    obtain ⟨span, s₂, h₂, hnext, hs₂⟩ := exists_next? hs₁
    simp only [hnext]
    exact ⟨_, s₂, _, rfl, Expr.SameAll.cons hsame rfl, hs₂⟩
  | comma _ ih =>
    obtain ⟨hm, hms⟩ := List.forall_mem_cons.mp hms
    rw [List.map_append, List.map_cons, List.append_assoc, List.cons_append] at hs
    rw [argumentsFrom]
    refine (hm s _ hs (.cons Nat.two_pos)).bind fun arg s₁ h₁ hsame hs₁ => ?_
    obtain ⟨span, s₂, h₂, hnext, hs₂⟩ := exists_next? hs₁
    simp only [hnext]
    refine (ih (List.cons_ne_nil _ _) hms hs₂).bind ?_
    rintro ⟨args, stop⟩ s₃ h₃ hsame' hs₃
    exact ⟨_, s₃, _, rfl, Expr.SameAll.cons hsame hsame', hs₃⟩

theorem gives_arguments (hrow : Arguments ls ms) (hd : ∀ m ∈ ms, m.tree.Derives .sum m.used)
    (hms : ∀ m ∈ ms, Rereads expression 2 (m.used.map Lexeme.token) m.tree)
    (hs : s.tokens = ls.map Lexeme.token ++ .closing .round :: ts) :
    Gives s.arguments (SameRow ms) ts := by
  rw [arguments]
  rcases hrow.head_ne hd with ⟨rfl, rfl⟩ | ⟨l, hl, hne⟩
  · obtain ⟨stop, s₁, h₁, htake, hs₁⟩ := exists_take? hs
    rw [htake]
    exact ⟨_, s₁, _, rfl, rfl, hs₁⟩
  · have hhead : l.token ∈ s.tokens.head? := by
      rw [hs]
      refine List.mem_head?_append_of_mem_head? ?_
      rw [List.head?_map, Option.mem_def.mp hl]
      rfl
    have hnone : s.take? (.closing .round) = none :=
      take?_eq_none fun hmem => hne _ (Option.mem_unique hhead hmem)
    have hms' : ms ≠ [] := by
      rintro rfl
      cases hrow
      cases hl
    rw [hnone]
    exact gives_argumentsFrom hrow hms' hms hs

/-- Behind a member of a row stands nothing that goes on with it. -/
theorem follows_separator {b : Bracket} (hsep : Separates separator ls) : Follows 1
    (separator.map Lexeme.token ++ (ls.map Lexeme.token ++ .closing b :: ts)) := by
  cases hsep with
  | comma => exact .cons Nat.one_pos
  | nothing hls =>
    cases ls with
    | nil => exact .cons Nat.one_pos
    | cons l ls =>
      refine .cons ?_
      rw [hls l rfl]
      exact Nat.one_pos

theorem gives_elementEnd (hsep : Separates separator ls)
    (hs : s.tokens = separator.map Lexeme.token ++ (ls.map Lexeme.token ++ .closing .brace :: ts)) :
    Gives s.elementEnd (fun _ => True) (ls.map Lexeme.token ++ .closing .brace :: ts) := by
  cases hsep with
  | comma =>
    obtain ⟨span, s₁, h₁, hnext, hs₁⟩ := exists_next? hs
    exact ⟨(), s₁, lt_succ_of_lt h₁, by rw [elementEnd, hnext], trivial, hs₁⟩
  | nothing hls =>
    refine ⟨(), s, s.lt_succ, ?_, trivial, hs⟩
    cases ls with
    | nil =>
      obtain ⟨span, s₁, h₁, hnext, -⟩ := exists_next? hs
      rw [elementEnd, hnext]
    | cons l ls =>
      obtain ⟨span, s₁, h₁, hnext, -⟩ := exists_next? hs
      rw [hls l rfl] at hnext
      rw [elementEnd, hnext]

theorem gives_pointEnd (hsep : Separates separator ls)
    (hs : s.tokens =
      separator.map Lexeme.token ++ (ls.map Lexeme.token ++ .closing .square :: ts)) :
    Gives s.pointEnd (fun _ => True) (ls.map Lexeme.token ++ .closing .square :: ts) := by
  cases hsep with
  | comma =>
    obtain ⟨span, s₁, h₁, hnext, hs₁⟩ := exists_next? hs
    exact ⟨(), s₁, lt_succ_of_lt h₁, by rw [pointEnd, hnext], trivial, hs₁⟩
  | nothing hls =>
    refine ⟨(), s, s.lt_succ, ?_, trivial, hs⟩
    cases ls with
    | nil =>
      obtain ⟨span, s₁, h₁, hnext, -⟩ := exists_next? hs
      rw [pointEnd, hnext]
    | cons l ls =>
      obtain ⟨span, s₁, h₁, hnext, -⟩ := exists_next? hs
      rw [hls l rfl] at hnext
      rw [pointEnd, hnext]

theorem gives_elements (hrow : Row ls ms)
    (hms : ∀ m ∈ ms, RereadsElement (m.used.map Lexeme.token) m.tree)
    (hs : s.tokens = ls.map Lexeme.token ++ .closing .brace :: ts) :
    Gives s.elements (SameRow ms) ts := by
  induction hrow generalizing s with
  | done hls =>
    obtain ⟨s₁, h₁, hdrop, hs₁⟩ := exists_dropTerminators hls hs (by simp)
    obtain ⟨stop, s₂, h₂, htake, hs₂⟩ := exists_take? hs₁
    rw [elements, hdrop]
    simp only [htake]
    exact ⟨_, s₂, _, rfl, rfl, hs₂⟩
  | member hskip hsep _ ih =>
    obtain ⟨⟨key, us', v, span, hused, htree, hv⟩, hms⟩ := List.forall_mem_cons.mp hms
    simp only [List.map_append, List.append_assoc, hused, List.cons_append] at hs
    obtain ⟨s₁, h₁, hdrop, hs₁⟩ := exists_dropTerminators hskip hs (by simp)
    have hnone : s₁.take? (.closing .brace) = none := take?_eq_none (by simp [hs₁])
    rw [elements, hdrop]
    simp only [hnone]
    refine (gives_identifier hs₁).bind ?_
    rintro ⟨_, keySpan⟩ s₂ h₂ rfl hs₂
    refine (gives_expect hs₂).bind fun colon s₃ h₃ _ hs₃ => ?_
    refine (hv s₃ _ hs₃ (follows_separator hsep)).bind fun v' s₄ h₄ hsame hs₄ => ?_
    refine (gives_elementEnd hsep hs₄).bind fun _ s₅ h₅ _ hs₅ => ?_
    refine (ih hms hs₅).bind ?_
    rintro ⟨more, stop⟩ s₆ h₆ hsame' hs₆
    refine ⟨_, s₆, _, rfl, ?_, hs₆⟩
    rw [SameRow, List.map_cons, htree]
    exact Expr.SameAll.cons hsame.keyed hsame'

theorem gives_points (hrow : Row ls ms)
    (hms : ∀ m ∈ ms, RereadsPoint (m.used.map Lexeme.token) m.tree)
    (hs : s.tokens = ls.map Lexeme.token ++ .closing .square :: ts) :
    Gives s.points (SameRow ms) ts := by
  induction hrow generalizing s with
  | done hls =>
    obtain ⟨s₁, h₁, hdrop, hs₁⟩ := exists_dropTerminators hls hs (by simp)
    obtain ⟨stop, s₂, h₂, htake, hs₂⟩ := exists_take? hs₁
    rw [points, hdrop]
    simp only [htake]
    exact ⟨_, s₂, _, rfl, rfl, hs₂⟩
  | member hskip hsep _ ih =>
    obtain ⟨⟨us', us'', x, y, span, hused, htree, hx, hy⟩, hms⟩ := List.forall_mem_cons.mp hms
    simp only [List.map_append, List.append_assoc, hused, List.cons_append, List.nil_append] at hs
    obtain ⟨s₁, h₁, hdrop, hs₁⟩ := exists_dropTerminators hskip hs (by simp)
    have hnone : s₁.take? (.closing .square) = none := take?_eq_none (by simp [hs₁])
    rw [points, hdrop]
    simp only [hnone]
    refine (gives_expect hs₁).bind fun start s₂ h₂ _ hs₂ => ?_
    refine (hx s₂ _ hs₂ (.cons (by decide))).bind fun x' s₃ h₃ hsame hs₃ => ?_
    refine (gives_expect hs₃).bind fun comma s₄ h₄ _ hs₄ => ?_
    refine (hy s₄ _ hs₄ (.cons (by decide))).bind fun y' s₅ h₅ hsame' hs₅ => ?_
    refine (gives_expect hs₅).bind fun stop s₆ h₆ _ hs₆ => ?_
    refine (gives_pointEnd hsep hs₆).bind fun _ s₇ h₇ _ hs₇ => ?_
    refine (ih hms hs₇).bind ?_
    rintro ⟨more, stop'⟩ s₈ h₈ hsame'' hs₈
    refine ⟨_, s₈, _, rfl, ?_, hs₈⟩
    rw [SameRow, List.map_cons, htree]
    exact Expr.SameAll.cons (hsame.pair hsame') hsame''

theorem rereads_call {function : String} (hrow : Arguments ls ms)
    (hd : ∀ m ∈ ms, m.tree.Derives .sum m.used)
    (hms : ∀ m ∈ ms, Rereads expression 2 (m.used.map Lexeme.token) m.tree) :
    Rereads value 6
      (.identifier function :: .opening .round :: (ls.map Lexeme.token ++ [.closing .round]))
      (.call function (ms.map Member.tree) span) := by
  intro s ts hs _
  simp only [List.append_assoc, List.cons_append, List.nil_append] at hs
  obtain ⟨name, s₁, h₁, hnext, hs₁⟩ := exists_next? hs
  obtain ⟨bracket, s₂, h₂, hnext', hs₂⟩ := exists_next? hs₁
  rw [value, hnext]
  simp only [hnext']
  refine (gives_arguments hrow hd hms hs₂).bind ?_
  rintro ⟨args, stop⟩ s₃ h₃ hsame hs₃
  exact ⟨_, s₃, _, rfl, .call hsame, hs₃⟩

theorem rereads_composite (hrow : Row ls ms)
    (hms : ∀ m ∈ ms, RereadsElement (m.used.map Lexeme.token) m.tree) :
    Rereads value 6 (.opening .brace :: (ls.map Lexeme.token ++ [.closing .brace]))
      (.composite none (ms.map Member.tree) span) := by
  intro s ts hs _
  simp only [List.append_assoc, List.cons_append, List.nil_append] at hs
  obtain ⟨bracket, s₁, h₁, hnext, hs₁⟩ := exists_next? hs
  rw [value, hnext]
  refine (gives_elements hrow hms hs₁).bind ?_
  rintro ⟨es, stop⟩ s₂ h₂ hsame hs₂
  exact ⟨_, s₂, _, rfl, .composite hsame, hs₂⟩

theorem rereads_typed {type : String} (hrow : Row ls ms)
    (hms : ∀ m ∈ ms, RereadsElement (m.used.map Lexeme.token) m.tree) :
    Rereads value 6
      (.identifier type :: .opening .brace :: (ls.map Lexeme.token ++ [.closing .brace]))
      (.composite (some type) (ms.map Member.tree) span) := by
  intro s ts hs _
  simp only [List.append_assoc, List.cons_append, List.nil_append] at hs
  obtain ⟨name, s₁, h₁, hnext, hs₁⟩ := exists_next? hs
  obtain ⟨bracket, s₂, h₂, hnext', hs₂⟩ := exists_next? hs₁
  rw [value, hnext]
  simp only [hnext']
  refine (gives_elements hrow hms hs₂).bind ?_
  rintro ⟨es, stop⟩ s₃ h₃ hsame hs₃
  exact ⟨_, s₃, _, rfl, .composite hsame, hs₃⟩

theorem rereads_table (hrow : Row ls ms)
    (hms : ∀ m ∈ ms, RereadsPoint (m.used.map Lexeme.token) m.tree) :
    Rereads value 6 (.opening .square :: (ls.map Lexeme.token ++ [.closing .square]))
      (.table (ms.map Member.tree) span) := by
  intro s ts hs _
  simp only [List.append_assoc, List.cons_append, List.nil_append] at hs
  obtain ⟨bracket, s₁, h₁, hnext, hs₁⟩ := exists_next? hs
  rw [value, hnext]
  refine (gives_points hrow hms hs₁).bind ?_
  rintro ⟨es, stop⟩ s₂ h₂ hsame hs₂
  exact ⟨_, s₂, _, rfl, .table hsame, hs₂⟩

/-! ### Units -/

theorem rereads_bare (h : Rereads expression 2 us e) : Rereads annotated 1 us e := by
  intro s ts hs hf
  rw [annotated]
  refine (h s ts hs (hf.mono (by decide))).bind fun e' s₁ h₁ hsame hs₁ => ?_
  simp only [units?_eq_none (hs₁ ▸ hf)]
  exact ⟨e', s₁, _, rfl, hsame, hs₁⟩

theorem rereads_units {content : String} {note : Span} (h : Rereads expression 2 us e) :
    Rereads annotated 1 (us ++ [.literal content]) (.units e (.literal content note) span) := by
  intro s ts hs _
  simp only [List.append_assoc, List.cons_append, List.nil_append] at hs
  rw [annotated]
  refine (h s _ hs (.cons Nat.one_lt_two)).bind fun e' s₁ h₁ hsame hs₁ => ?_
  obtain ⟨span, s₂, h₂, hunits, hs₂⟩ := exists_units? hs₁
  simp only [hunits]
  exact ⟨_, s₂, _, rfl, hsame.units rfl, hs₂⟩

end Stream

namespace Expr

open StockFlow.Stream

/-- What it means at each level that tokens are read as a tree. -/
def Rereads : Level → List Token → Expr → Prop
  | .annotated => Stream.Rereads annotated 1
  | .sum => Reaches expression expressionTail 3
  | .product => Reaches product productTail 4
  | .power => Stream.Rereads power 4
  | .negation => Stream.Rereads negation 5
  | .lookup => Reaches lookup lookupTail 6
  | .value => Stream.Rereads value 6
  | .element => RereadsElement
  | .point => RereadsPoint

section

variable {us : List Token} {e : Expr}

theorem Rereads.expression (h : Rereads .sum us e) : Stream.Rereads expression 2 us e :=
  Reaches.rereads h (by decide) expressionTail_stop

theorem Rereads.product (h : Rereads .product us e) : Stream.Rereads product 3 us e :=
  Reaches.rereads h (by decide) productTail_stop

theorem Rereads.lookup (h : Rereads .lookup us e) : Stream.Rereads lookup 5 us e :=
  Reaches.rereads h (by decide) lookupTail_stop

end

/-- **The tokens that derive a tree are read as that tree** at its level. -/
theorem Derives.rereads {k : Level} {ls : List Lexeme} {e : Expr} (h : Derives k ls e) :
    Rereads k (ls.map Lexeme.token) e := by
  induction h with
  | units _ ih =>
    rw [List.map_append]
    exact rereads_units ih.expression
  | bare _ ih => exact rereads_bare ih.expression
  | sum hop _ _ ih ih' =>
    rw [List.map_append, List.map_cons]
    exact Reaches.sum hop ih ih'.product
  | ofProduct _ ih => exact ih.product.reaches expression_start
  | product hop _ _ ih ih' =>
    rw [List.map_append, List.map_cons]
    exact Reaches.product hop ih ih'
  | ofPower _ ih => exact Stream.Rereads.reaches ih product_start
  | power _ _ ih ih' =>
    rw [List.map_append, List.map_cons]
    exact rereads_power ih ih'
  | ofNegation _ ih => exact rereads_power_of_negation ih
  | negate _ ih => exact rereads_negate ih
  | @ofLookup ls e h ih =>
    obtain ⟨l, hl, hstarts⟩ := h.exists_head
    have hstarts : l.token.startsValue = true := hstarts.resolve_right fun h => h.2.1 rfl
    have hhead : (ls.map Lexeme.token).head? = some l.token := by
      rw [List.head?_map, Option.mem_def.mp hl]
      rfl
    refine rereads_negation_of_lookup ih.lookup ?_ ?_
    · rw [hhead]
      intro hminus
      rw [Option.some.inj hminus] at hstarts
      cases hstarts
    · intro hnil
      rw [hnil] at hhead
      cases hhead
  | index _ _ ih ih' =>
    rw [List.map_append, List.map_cons, List.map_append]
    exact Reaches.index ih ih'.expression
  | ofValue _ ih => exact Stream.Rereads.reaches ih lookup_start
  | var => exact rereads_var
  | number h => exact rereads_number h
  | literal => exact rereads_literal
  | paren _ ih =>
    rw [List.map_cons, List.map_append]
    exact rereads_paren ih.expression
  | composite hrow _ ih =>
    rw [List.map_cons, List.map_append]
    exact rereads_composite hrow ih
  | typed hrow _ ih =>
    rw [List.map_cons, List.map_cons, List.map_append]
    exact rereads_typed hrow ih
  | table hrow _ ih =>
    rw [List.map_cons, List.map_append]
    exact rereads_table hrow ih
  | call hrow hd ih =>
    rw [List.map_cons, List.map_cons, List.map_append]
    exact rereads_call hrow hd fun m hm => (ih m hm).expression
  | keyed _ ih => exact ⟨_, _, _, _, rfl, rfl, ih⟩
  | pair _ _ ih ih' =>
    simp only [List.map_append, List.map_cons]
    exact ⟨_, _, _, _, _, rfl, rfl, ih.expression, ih'.expression⟩

/-- **An expression, perhaps with units, is read back from the tokens of its text.** -/
theorem Fits.rereads {e : Expr} (h : Fits .annotated e) :
    Stream.Rereads annotated 1 e.tokens e := by
  intro s ts hs hf
  have htokens : (e.tokens.map Token.unplaced).map Lexeme.token = e.tokens := by
    rw [List.map_map]
    exact List.map_id _
  obtain ⟨e', s', h', hread, hsame, hs'⟩ := h.derives.rereads s ts (by rwa [htokens]) hf
  exact ⟨e', s', h', hread, hsame.trans (unplaced_unplaced e), hs'⟩

end Expr

end StockFlow
