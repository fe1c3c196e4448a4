import StockFlow.Proofs.Grammar.Words

/-!
# Expressions are read token by token

* `Stream.Makes` — a tree was read between two streams
* `Stream.makes_annotated` — an expression that is read is derived from the tokens that were taken
* `Stream.reads_annotated` — what was read of it are its words
-/

namespace StockFlow

open StockFlow.Expr (Level Row Arguments Member OnlyTerminators Separates)

/-! ## Words of what is derived -/

theorem spells_of_onlyTerminators {ls : List Lexeme} {ws : List Word} {ts : List Token}
    (h : OnlyTerminators ls) (hts : Spells ws ts) : Spells ws (ls.map Lexeme.token ++ ts) := by
  induction ls with
  | nil => exact hts
  | cons l ls ih =>
    obtain ⟨hl, hls⟩ := List.forall_mem_cons.mp h
    rw [List.map_cons, hl]
    exact .terminator (ih hls)

/-- A single token spells itself. -/
theorem Spells.token {t : Token} {ws : List Word} {ts : List Token} (ht : t.Readable)
    (h : Spells ws ts) : Spells (.token t :: ws) (t :: ts) := by
  have hw : Word.IsWritten (.token t) [t] := ⟨rfl, ht⟩
  exact .word hw h

namespace Expr

variable {ls : List Lexeme} {ms : List Member}

/-- A separator is written as it stands in a row. -/
theorem Separates.isWritten {separator : List Lexeme} (h : Separates separator ls) :
    Word.separator.IsWritten (separator.map Lexeme.token) := by
  cases h with
  | comma => exact Or.inl rfl
  | nothing => exact Or.inr rfl

theorem Row.spells (h : Row ls ms)
    (hms : ∀ m ∈ ms, Spells m.tree.words (m.used.map Lexeme.token)) :
    Spells (elementWords (ms.map Member.tree)) (ls.map Lexeme.token) := by
  induction h with
  | done hls =>
    have hall := spells_of_onlyTerminators hls .nil
    rwa [List.append_nil] at hall
  | member hskip hsep _ ih =>
    obtain ⟨hm, hms⟩ := List.forall_mem_cons.mp hms
    simp only [List.map_append, List.map_cons, elementWords]
    exact spells_of_onlyTerminators hskip (hm.append (.word hsep.isWritten (ih hms)))

theorem Arguments.spells (h : Arguments ls ms)
    (hms : ∀ m ∈ ms, Spells m.tree.words (m.used.map Lexeme.token)) :
    Spells (argumentWords (ms.map Member.tree)) (ls.map Lexeme.token) := by
  induction h with
  | none => exact .nil
  | last m =>
    simp only [List.map_cons, List.map_nil, argumentWords, furtherWords, List.append_nil]
    exact hms m (List.mem_singleton_self m)
  | comma _ ih =>
    obtain ⟨hm, hms⟩ := List.forall_mem_cons.mp hms
    rw [List.map_cons, argumentWords_cons _ (by simp), List.map_append, List.map_cons]
    exact hm.append (.token trivial (ih hms))

/-- **The words of a tree are spelled by the tokens from which it is derived.** -/
theorem Derives.spells {k : Level} {e : Expr} (h : Derives k ls e) :
    Spells e.words (ls.map Lexeme.token) := by
  have hclosed (b : Bracket) : Spells [.token (.closing b)] [.closing b] := .token trivial .nil
  induction h with
  | bare _ ih | ofProduct _ ih | ofPower _ ih | ofNegation _ ih | ofLookup _ ih | ofValue _ ih =>
    exact ih
  | units _ ih =>
    simp only [words, List.map_append, List.map_cons, List.map_nil]
    exact ih.append (.token trivial .nil)
  | sum _ _ _ ih ih' | product _ _ _ ih ih' | power _ _ ih ih' =>
    simp only [Stream.joined, words, List.map_append, List.map_cons]
    exact ih.append (.token trivial ih')
  | negate _ ih =>
    simp only [words, List.map_cons]
    exact .token trivial ih
  | index _ _ ih ih' =>
    simp only [words, List.map_append, List.map_cons, List.map_nil]
    exact ih.append (.token trivial (ih'.append (hclosed _)))
  | number h =>
    simp only [words, List.map_cons, List.map_nil]
    exact .token h .nil
  | var | literal =>
    simp only [words, List.map_cons, List.map_nil]
    exact .token trivial .nil
  | paren _ ih =>
    simp only [words, List.map_append, List.map_cons, List.map_nil]
    exact .token trivial (ih.append (hclosed _))
  | composite hrow _ ih | table hrow _ ih =>
    simp only [words, List.map_append, List.map_cons, List.map_nil]
    exact .token trivial ((hrow.spells ih).append (hclosed _))
  | typed hrow _ ih =>
    simp only [words, List.map_append, List.map_cons, List.map_nil]
    exact .token trivial (.token trivial ((hrow.spells ih).append (hclosed _)))
  | call hargs _ ih =>
    simp only [words, List.map_append, List.map_cons, List.map_nil]
    exact .token trivial (.token trivial ((hargs.spells ih).append (hclosed _)))
  | keyed _ ih =>
    simp only [words, List.map_cons]
    exact .token trivial (.token trivial ih)
  | pair _ _ ih ih' =>
    simp only [words, List.map_append, List.map_cons, List.map_nil]
    exact .token trivial (ih.append (.token trivial (ih'.append (hclosed _))))

end Expr

namespace Stream

variable {s t : Stream}

/-! ## Single tokens -/

theorem rest_of_take? {w : Token} {r : Parsed Span s.size} (h : s.take? w = some r) :
    s.rest = ⟨w, r.value⟩ :: r.stream.rest := by
  unfold take? at h
  split at h
  · next hnext =>
    split at h
    · next hw =>
      cases h
      subst hw
      exact rest_of_next? hnext
    · cases h
  · cases h

theorem rest_of_expect {w : Token} {r : Parsed Span s.size} (h : s.expect w = .ok r) :
    s.rest = ⟨w, r.value⟩ :: r.stream.rest := by
  unfold expect at h
  split at h
  · next htake =>
    cases h
    exact rest_of_take? htake
  · cases h

theorem rest_of_identifier {r : Parsed (String × Span) s.size} (h : s.identifier = .ok r) :
    s.rest = ⟨.identifier r.value.1, r.value.2⟩ :: r.stream.rest := by
  unfold identifier at h
  split at h
  · next hnext =>
    cases h
    exact rest_of_next? hnext
  · cases h
  · cases h

theorem rest_of_additive? {r : Parsed BinaryOp s.size} (h : s.additive? = some r) :
    r.value.precedence = 1 ∧ ∃ span, s.rest = ⟨.sign r.value.sign, span⟩ :: r.stream.rest := by
  unfold additive? at h
  split at h
  · next hnext =>
    cases h
    exact ⟨rfl, _, rest_of_next? hnext⟩
  · next hnext =>
    cases h
    exact ⟨rfl, _, rest_of_next? hnext⟩
  · cases h

theorem rest_of_multiplicative? {r : Parsed BinaryOp s.size} (h : s.multiplicative? = some r) :
    r.value.precedence = 2 ∧ ∃ span, s.rest = ⟨.sign r.value.sign, span⟩ :: r.stream.rest := by
  unfold multiplicative? at h
  split at h
  · next hnext =>
    cases h
    exact ⟨rfl, _, rest_of_next? hnext⟩
  · next hnext =>
    cases h
    exact ⟨rfl, _, rest_of_next? hnext⟩
  · cases h

theorem rest_of_units? {r : Parsed Expr s.size} (h : s.units? false = some r) :
    ∃ content span, r.value = .literal content span ∧
      s.rest = ⟨.literal content, span⟩ :: r.stream.rest := by
  unfold units? at h
  split at h
  · next hnext =>
    cases h
    exact ⟨_, _, rfl, rest_of_next? hnext⟩
  · cases h
  · cases h

theorem rest_dropTerminators (s : Stream) : ∃ skipped, OnlyTerminators skipped ∧
    s.rest = skipped ++ s.dropTerminators.stream.rest := by
  fun_induction dropTerminators s with
  | case1 s span more hrest _ s₁ _ htail ih =>
    rw [htail] at ih
    obtain ⟨skipped, hskip, hmore⟩ := ih
    refine ⟨⟨.terminator, span⟩ :: skipped, List.forall_mem_cons.mpr ⟨rfl, hskip⟩, ?_⟩
    exact hrest.trans (congrArg _ hmore)
  | case2 s => exact ⟨[], List.forall_mem_nil _, rfl⟩

/-- Between a member of a row and its rest a comma was taken, or nothing in front of a terminator or
of the bracket that closes the row. -/
def Separated (s t : Stream) (b : Bracket) : Prop :=
  (∃ span, s.rest = ⟨.sign .comma, span⟩ :: t.rest) ∨ s.rest = t.rest ∧
    ∀ l ∈ s.rest.head?, l.token = .terminator ∨ l.token = .closing b

theorem separated_of_comma {b : Bracket} {span : Span} {ht : t.size < s.size}
    (hnext : s.next? = some ⟨⟨.sign .comma, span⟩, t, ht⟩) : s.Separated t b :=
  Or.inl ⟨span, rest_of_next? hnext⟩

theorem separated_of_end {b : Bracket} {l : Lexeme} {ht : t.size < s.size}
    (hnext : s.next? = some ⟨l, t, ht⟩) (hl : l.token = .terminator ∨ l.token = .closing b) :
    s.Separated s b := by
  refine Or.inr ⟨rfl, fun l' hl' => ?_⟩
  rw [rest_of_next? hnext] at hl'
  exact Option.some.inj hl' ▸ hl

theorem separated_elementEnd {r : Parsed Unit (s.size + 1)} (h : s.elementEnd = .ok r) :
    s.Separated r.stream .brace := by
  unfold elementEnd at h
  split at h
  · next hnext =>
    cases h
    exact separated_of_comma hnext
  · next hnext =>
    cases h
    exact separated_of_end hnext (Or.inl rfl)
  · next hnext =>
    cases h
    exact separated_of_end hnext (Or.inr rfl)
  · cases h

theorem separated_pointEnd {r : Parsed Unit (s.size + 1)} (h : s.pointEnd = .ok r) :
    s.Separated r.stream .square := by
  unfold pointEnd at h
  split at h
  · next hnext =>
    cases h
    exact separated_of_comma hnext
  · next hnext =>
    cases h
    exact separated_of_end hnext (Or.inl rfl)
  · next hnext =>
    cases h
    exact separated_of_end hnext (Or.inr rfl)
  · cases h

/-! ## Trees and rows -/

/-- **Between two streams a tree of this level was read.** -/
def Makes (s t : Stream) (k : Level) (e : Expr) : Prop :=
  ∃ ls, s.rest = ls ++ t.rest ∧ e.Derives k ls

/-- Between two streams a row was read, up to the bracket that closes it. -/
def MakesRow (s t : Stream) (row : List Lexeme → List Member → Prop) (k : Level) (b : Bracket)
    (r : List Expr × Pos) : Prop :=
  ∃ ls ms close, s.rest = ls ++ ⟨.closing b, close⟩ :: t.rest ∧ row ls ms ∧
    (∀ m ∈ ms, m.tree.Derives k m.used) ∧ r = (ms.map Member.tree, close.stop)

namespace Makes

variable {s₁ s₂ s₃ : Stream} {k k' : Level} {e left right : Expr}

/-- What is read at a level may be read at another. -/
theorem mono (h : s.Makes t k e) (hk : ∀ {ls}, e.Derives k ls → e.Derives k' ls) :
    s.Makes t k' e := by
  obtain ⟨ls, hs, hd⟩ := h
  exact ⟨ls, hs, hk hd⟩

/-- Two operands with a sign between them. -/
theorem joined {k₂ : Level} {op : BinaryOp} {sign : Span} (hleft : t.Makes s k left)
    (hsign : s.rest = ⟨.sign op.sign, sign⟩ :: s₁.rest) (hright : s₁.Makes s₂ k' right)
    (hop : ∀ {ls ls'}, left.Derives k ls → right.Derives k' ls' →
      (Stream.joined op left right).Derives k₂ (ls ++ ⟨.sign op.sign, sign⟩ :: ls')) :
    t.Makes s₂ k₂ (Stream.joined op left right) := by
  obtain ⟨ls, ht, hl⟩ := hleft
  obtain ⟨ls', hs, hr⟩ := hright
  refine ⟨_, ?_, hop hl hr⟩
  rw [ht, hsign, hs, List.append_assoc, List.cons_append]

end Makes

/-- A member stands before the rest of a row. -/
theorem MakesRow.cons {s₁ s₂ s₃ : Stream} {k : Level} {b : Bracket} {e : Expr}
    {more : List Expr × Pos} {skipped : List Lexeme} (hskip : OnlyTerminators skipped)
    (hs : s.rest = skipped ++ s₁.rest) (he : s₁.Makes s₂ k e) (hend : s₂.Separated s₃ b)
    (hmore : s₃.MakesRow t Row k b more) : s.MakesRow t Row k b (e :: more.1, more.2) := by
  obtain ⟨used, hs₁, hd⟩ := he
  obtain ⟨ls, ms, close, hs₃, hrow, hms, rfl⟩ := hmore
  have hsep : ∃ separator, s₂.rest = separator ++ s₃.rest ∧ Separates separator ls := by
    rcases hend with ⟨span, hs₂⟩ | ⟨hs₂, hhead⟩
    · exact ⟨_, hs₂, .comma⟩
    · refine ⟨[], hs₂, .nothing fun l hl => ?_⟩
      rw [hs₂, hs₃] at hhead
      exact (hhead l (List.mem_head?_append_of_mem_head? hl)).resolve_right
        (hrow.head_ne hms l hl b)
  obtain ⟨separator, hs₂, hsep⟩ := hsep
  have hcons : Row (skipped ++ (used ++ (separator ++ ls))) (⟨used, e⟩ :: ms) :=
    .member (m := ⟨used, e⟩) hskip hsep hrow
  refine ⟨_, _, close, ?_, hcons, List.forall_mem_cons.mpr ⟨hd, hms⟩, rfl⟩
  rw [hs, hs₁, hs₂, hs₃]
  simp only [List.append_assoc]

/-! ## Expressions

Each theorem calls the theorems about what its reader calls, and by the measure by which the readers
end. In those about the rests of sums, products and look-ups, what stands to the left was read from
some stream before. -/

mutual

theorem makes_annotated {s : Stream} {r : Parsed Expr s.size} (h : s.annotated = .ok r) :
    s.Makes r.stream .annotated r.value := by
  rw [annotated] at h
  obtain ⟨⟨value, s₁, h₁⟩, hvalue, h⟩ := bind_eq_ok.mp h
  have hmakes := makes_expression hvalue
  simp only at h
  split at h
  · next note s₂ h₂ hnote =>
    cases h
    obtain ⟨content, span, rfl, hs₁⟩ := rest_of_units? hnote
    obtain ⟨ls, hs, hd⟩ := hmakes
    refine ⟨_, ?_, .units hd⟩
    rw [hs, hs₁, List.append_assoc, List.singleton_append]
  · cases h
    exact hmakes.mono .bare
termination_by 16 * s.size + 7

theorem makes_expression {s : Stream} {r : Parsed Expr s.size} (h : s.expression = .ok r) :
    s.Makes r.stream .sum r.value := by
  rw [expression] at h
  obtain ⟨⟨left, s₁, h₁⟩, hleft, h⟩ := bind_eq_ok.mp h
  obtain ⟨⟨e, s₂, h₂⟩, htail, h⟩ := bind_eq_ok.mp h
  cases h
  have hmakes := makes_expressionTail ((makes_product hleft).mono .ofProduct) htail
  exact hmakes
termination_by 16 * s.size + 6

theorem makes_expressionTail {left : Expr} {s t : Stream} {r : Parsed Expr (s.size + 1)}
    (hleft : t.Makes s .sum left) (h : expressionTail left s = .ok r) :
    t.Makes r.stream .sum r.value := by
  rw [expressionTail] at h
  split at h
  · cases h
    exact hleft
  · next op s₁ h₁ hop =>
    obtain ⟨⟨right, s₂, h₂⟩, hright, h⟩ := bind_eq_ok.mp h
    obtain ⟨⟨e, s₃, h₃⟩, htail, h⟩ := bind_eq_ok.mp h
    cases h
    obtain ⟨hprecedence, sign, hsign⟩ := rest_of_additive? hop
    have hjoined := hleft.joined hsign (makes_product hright) (.sum hprecedence)
    have hmakes := makes_expressionTail hjoined htail
    exact hmakes
termination_by 16 * s.size

theorem makes_product {s : Stream} {r : Parsed Expr s.size} (h : s.product = .ok r) :
    s.Makes r.stream .product r.value := by
  rw [product] at h
  obtain ⟨⟨left, s₁, h₁⟩, hleft, h⟩ := bind_eq_ok.mp h
  obtain ⟨⟨e, s₂, h₂⟩, htail, h⟩ := bind_eq_ok.mp h
  cases h
  have hmakes := makes_productTail ((makes_power hleft).mono .ofPower) htail
  exact hmakes
termination_by 16 * s.size + 5

theorem makes_productTail {left : Expr} {s t : Stream} {r : Parsed Expr (s.size + 1)}
    (hleft : t.Makes s .product left) (h : productTail left s = .ok r) :
    t.Makes r.stream .product r.value := by
  rw [productTail] at h
  split at h
  · cases h
    exact hleft
  · next op s₁ h₁ hop =>
    obtain ⟨⟨right, s₂, h₂⟩, hright, h⟩ := bind_eq_ok.mp h
    obtain ⟨⟨e, s₃, h₃⟩, htail, h⟩ := bind_eq_ok.mp h
    cases h
    obtain ⟨hprecedence, sign, hsign⟩ := rest_of_multiplicative? hop
    have hjoined := hleft.joined hsign (makes_power hright) (.product hprecedence)
    have hmakes := makes_productTail hjoined htail
    exact hmakes
termination_by 16 * s.size

theorem makes_power {s : Stream} {r : Parsed Expr s.size} (h : s.power = .ok r) :
    s.Makes r.stream .power r.value := by
  rw [power] at h
  obtain ⟨⟨base, s₁, h₁⟩, hbase, h⟩ := bind_eq_ok.mp h
  have hmakes := makes_negation hbase
  simp only at h
  split at h
  · cases h
    exact hmakes.mono .ofNegation
  · next caret s₂ h₂ hcaret =>
    obtain ⟨⟨exponent, s₃, h₃⟩, hexponent, h⟩ := bind_eq_ok.mp h
    cases h
    have hsign : s₁.rest = ⟨.sign (BinaryOp.sign .pow), caret⟩ :: s₂.rest := rest_of_take? hcaret
    exact hmakes.joined hsign (makes_power hexponent) .power
termination_by 16 * s.size + 4

theorem makes_negation {s : Stream} {r : Parsed Expr s.size} (h : s.negation = .ok r) :
    s.Makes r.stream .negation r.value := by
  rw [negation] at h
  split at h
  · exact (makes_lookup h).mono .ofLookup
  · next sign s₁ h₁ hsign =>
    obtain ⟨⟨operand, s₂, h₂⟩, hoperand, h⟩ := bind_eq_ok.mp h
    cases h
    obtain ⟨ls, hs₁, hd⟩ := makes_negation hoperand
    refine ⟨⟨_, sign⟩ :: ls, ?_, .negate hd⟩
    rw [rest_of_take? hsign, hs₁, List.cons_append]
termination_by 16 * s.size + 3

theorem makes_lookup {s : Stream} {r : Parsed Expr s.size} (h : s.lookup = .ok r) :
    s.Makes r.stream .lookup r.value := by
  rw [lookup] at h
  obtain ⟨⟨value, s₁, h₁⟩, hvalue, h⟩ := bind_eq_ok.mp h
  obtain ⟨⟨e, s₂, h₂⟩, htail, h⟩ := bind_eq_ok.mp h
  cases h
  have hmakes := makes_lookupTail ((makes_value hvalue).mono .ofValue) htail
  exact hmakes
termination_by 16 * s.size + 2

theorem makes_lookupTail {table : Expr} {s t : Stream} {r : Parsed Expr (s.size + 1)}
    (htable : t.Makes s .lookup table) (h : lookupTail table s = .ok r) :
    t.Makes r.stream .lookup r.value := by
  rw [lookupTail] at h
  split at h
  · cases h
    exact htable
  · next bracket s₁ h₁ hopen =>
    obtain ⟨⟨index, s₂, h₂⟩, hindex, h⟩ := bind_eq_ok.mp h
    obtain ⟨⟨stop, s₃, h₃⟩, hclose, h⟩ := bind_eq_ok.mp h
    obtain ⟨⟨e, s₄, h₄⟩, htail, h⟩ := bind_eq_ok.mp h
    cases h
    have hindexed : t.Makes s₃ .lookup (.index table index ⟨table.span.start, stop.stop⟩) := by
      obtain ⟨ls, ht, hd⟩ := htable
      obtain ⟨ls', hs₁, hd'⟩ := makes_expression hindex
      refine ⟨ls ++ ⟨_, bracket⟩ :: (ls' ++ [⟨_, stop⟩]), ?_, .index hd hd'⟩
      rw [ht, rest_of_take? hopen, hs₁, rest_of_expect hclose]
      simp only [List.append_assoc, List.cons_append, List.nil_append]
    have hmakes := makes_lookupTail hindexed htail
    exact hmakes
termination_by 16 * s.size

theorem makes_value {s : Stream} {r : Parsed Expr s.size} (h : s.value = .ok r) :
    s.Makes r.stream .value r.value := by
  rw [value] at h
  split at h
  · next text span s₁ h₁ hnext =>
    split at h
    · next hnumeral =>
      cases h
      exact ⟨_, rest_of_next? hnext, .number hnumeral⟩
    · cases h
  · next hnext =>
    cases h
    exact ⟨_, rest_of_next? hnext, .literal⟩
  · next name span s₁ h₁ hname =>
    split at h
    · next bracket s₂ h₂ hopen =>
      obtain ⟨⟨⟨args, stop⟩, s₃, h₃⟩, hargs, h⟩ := bind_eq_ok.mp h
      cases h
      obtain ⟨ls, ms, close, hs₂, hrow, hms, hr⟩ := makes_arguments hargs
      cases hr
      refine ⟨⟨_, span⟩ :: ⟨_, bracket⟩ :: (ls ++ [⟨_, close⟩]), ?_, .call hrow hms⟩
      rw [rest_of_next? hname, rest_of_next? hopen, hs₂]
      simp only [List.append_assoc, List.cons_append, List.nil_append]
    · next bracket s₂ h₂ hopen =>
      obtain ⟨⟨⟨elements, stop⟩, s₃, h₃⟩, helements, h⟩ := bind_eq_ok.mp h
      cases h
      obtain ⟨ls, ms, close, hs₂, hrow, hms, hr⟩ := makes_elements helements
      cases hr
      refine ⟨⟨_, span⟩ :: ⟨_, bracket⟩ :: (ls ++ [⟨_, close⟩]), ?_, .typed hrow hms⟩
      rw [rest_of_next? hname, rest_of_next? hopen, hs₂]
      simp only [List.append_assoc, List.cons_append, List.nil_append]
    · cases h
      exact ⟨_, rest_of_next? hname, .var⟩
  · next span s₁ h₁ hopen =>
    obtain ⟨⟨inner, s₂, h₂⟩, hinner, h⟩ := bind_eq_ok.mp h
    obtain ⟨⟨stop, s₃, h₃⟩, hclose, h⟩ := bind_eq_ok.mp h
    cases h
    obtain ⟨ls, hs₁, hd⟩ := makes_expression hinner
    refine ⟨⟨_, span⟩ :: (ls ++ [⟨_, stop⟩]), ?_, .paren hd⟩
    rw [rest_of_next? hopen, hs₁, rest_of_expect hclose]
    simp only [List.append_assoc, List.cons_append, List.nil_append]
  · next span s₁ h₁ hopen =>
    obtain ⟨⟨⟨elements, stop⟩, s₂, h₂⟩, helements, h⟩ := bind_eq_ok.mp h
    cases h
    obtain ⟨ls, ms, close, hs₁, hrow, hms, hr⟩ := makes_elements helements
    cases hr
    refine ⟨⟨_, span⟩ :: (ls ++ [⟨_, close⟩]), ?_, .composite hrow hms⟩
    rw [rest_of_next? hopen, hs₁]
    simp only [List.append_assoc, List.cons_append, List.nil_append]
  · next span s₁ h₁ hopen =>
    obtain ⟨⟨⟨points, stop⟩, s₂, h₂⟩, hpoints, h⟩ := bind_eq_ok.mp h
    cases h
    obtain ⟨ls, ms, close, hs₁, hrow, hms, hr⟩ := makes_points hpoints
    cases hr
    refine ⟨⟨_, span⟩ :: (ls ++ [⟨_, close⟩]), ?_, .table hrow hms⟩
    rw [rest_of_next? hopen, hs₁]
    simp only [List.append_assoc, List.cons_append, List.nil_append]
  · cases h
termination_by 16 * s.size + 1

theorem makes_arguments {s : Stream} {r : Parsed (List Expr × Pos) s.size}
    (h : s.arguments = .ok r) : s.MakesRow r.stream Arguments .sum .round r.value := by
  rw [arguments] at h
  split at h
  · next stop s₁ h₁ hclose =>
    cases h
    exact ⟨[], [], stop, rest_of_take? hclose, .none, List.forall_mem_nil _, rfl⟩
  · exact (makes_argumentsFrom h).1
termination_by 16 * s.size + 8

theorem makes_argumentsFrom {s : Stream} {r : Parsed (List Expr × Pos) s.size}
    (h : s.argumentsFrom = .ok r) :
    s.MakesRow r.stream Arguments .sum .round r.value ∧ r.value.1 ≠ [] := by
  rw [argumentsFrom] at h
  obtain ⟨⟨arg, s₁, h₁⟩, harg, h⟩ := bind_eq_ok.mp h
  obtain ⟨used, hs, hd⟩ := makes_expression harg
  simp only at h
  split at h
  · next comma s₂ h₂ hcomma =>
    obtain ⟨⟨⟨args, stop⟩, s₃, h₃⟩, hargs, h⟩ := bind_eq_ok.mp h
    cases h
    obtain ⟨⟨ls, ms, close, hs₂, hrow, hms, hr⟩, hne⟩ := makes_argumentsFrom hargs
    cases hr
    obtain ⟨m, ms, rfl⟩ := List.exists_cons_of_ne_nil (mt List.map_eq_nil_iff.mpr hne)
    have hcons : Arguments (used ++ ⟨.sign .comma, comma⟩ :: ls) (⟨used, arg⟩ :: m :: ms) :=
      .comma (m := ⟨used, arg⟩) hrow
    refine ⟨⟨_, _, close, ?_, hcons, List.forall_mem_cons.mpr ⟨hd, hms⟩, rfl⟩,
      List.cons_ne_nil _ _⟩
    rw [hs, rest_of_next? hcomma, hs₂]
    simp only [List.append_assoc, List.cons_append]
  · next span s₂ h₂ hclose =>
    cases h
    refine ⟨⟨used, [⟨used, arg⟩], span, ?_, .last ⟨used, arg⟩, List.forall_mem_singleton.mpr hd,
      rfl⟩, List.cons_ne_nil _ _⟩
    rw [hs, rest_of_next? hclose]
  · cases h
termination_by 16 * s.size + 7

theorem makes_elements {s : Stream} {r : Parsed (List Expr × Pos) s.size}
    (h : s.elements = .ok r) : s.MakesRow r.stream Row .element .brace r.value := by
  rw [elements] at h
  obtain ⟨skipped, hskip, hs⟩ := rest_dropTerminators s
  generalize s.dropTerminators = dropped at h hs
  obtain ⟨_, s₁, h₁⟩ := dropped
  simp only at h
  split at h
  · next stop s₂ h₂ hclose =>
    cases h
    refine ⟨skipped, [], stop, ?_, .done hskip, List.forall_mem_nil _, rfl⟩
    rw [hs, rest_of_take? hclose]
  · obtain ⟨⟨⟨key, keySpan⟩, s₂, h₂⟩, hkey, h⟩ := bind_eq_ok.mp h
    obtain ⟨⟨colon, s₃, h₃⟩, hcolon, h⟩ := bind_eq_ok.mp h
    obtain ⟨⟨value, s₄, h₄⟩, hvalue, h⟩ := bind_eq_ok.mp h
    obtain ⟨⟨_, s₅, h₅⟩, hend, h⟩ := bind_eq_ok.mp h
    obtain ⟨⟨⟨more, stop⟩, s₆, h₆⟩, hmore, h⟩ := bind_eq_ok.mp h
    cases h
    -- how far the streams of the calls below are behind `s`
    have hlt₃ : s₃.size < s.size := lt_of_lt_of_le (lt_trans h₃ h₂) h₁
    have hlt₅ : s₅.size < s.size := lt_of_le_of_lt h₅ (lt_trans h₄ hlt₃)
    have helement : s₁.Makes s₄ .element (.keyed key value (keySpan.union value.span)) := by
      obtain ⟨ls, hs₃, hd⟩ := makes_annotated hvalue
      refine ⟨⟨_, keySpan⟩ :: ⟨_, colon⟩ :: ls, ?_, .keyed hd⟩
      rw [rest_of_identifier hkey, rest_of_expect hcolon, hs₃]
      rfl
    have hrow := makes_elements hmore
    exact .cons hskip hs helement (separated_elementEnd hend) hrow
termination_by 16 * s.size

theorem makes_points {s : Stream} {r : Parsed (List Expr × Pos) s.size}
    (h : s.points = .ok r) : s.MakesRow r.stream Row .point .square r.value := by
  rw [points] at h
  obtain ⟨skipped, hskip, hs⟩ := rest_dropTerminators s
  generalize s.dropTerminators = dropped at h hs
  obtain ⟨_, s₁, h₁⟩ := dropped
  simp only at h
  split at h
  · next stop s₂ h₂ hclose =>
    cases h
    refine ⟨skipped, [], stop, ?_, .done hskip, List.forall_mem_nil _, rfl⟩
    rw [hs, rest_of_take? hclose]
  · obtain ⟨⟨start, s₂, h₂⟩, hopen, h⟩ := bind_eq_ok.mp h
    obtain ⟨⟨x, s₃, h₃⟩, hx, h⟩ := bind_eq_ok.mp h
    obtain ⟨⟨comma, s₄, h₄⟩, hcomma, h⟩ := bind_eq_ok.mp h
    obtain ⟨⟨y, s₅, h₅⟩, hy, h⟩ := bind_eq_ok.mp h
    obtain ⟨⟨stop, s₆, h₆⟩, hclose, h⟩ := bind_eq_ok.mp h
    obtain ⟨⟨_, s₇, h₇⟩, hend, h⟩ := bind_eq_ok.mp h
    obtain ⟨⟨⟨more, stop'⟩, s₈, h₈⟩, hmore, h⟩ := bind_eq_ok.mp h
    cases h
    -- how far the streams of the calls below are behind `s`
    have hlt₄ : s₄.size < s.size := lt_of_lt_of_le (lt_trans h₄ (lt_trans h₃ h₂)) h₁
    have hlt₇ : s₇.size < s.size := lt_of_le_of_lt h₇ (lt_trans h₆ (lt_trans h₅ hlt₄))
    have hpoint : s₁.Makes s₆ .point (.pair x y ⟨start.start, stop.stop⟩) := by
      obtain ⟨ls, hs₂, hdx⟩ := makes_expression hx
      obtain ⟨ls', hs₄, hdy⟩ := makes_expression hy
      refine ⟨⟨_, start⟩ :: (ls ++ ⟨_, comma⟩ :: (ls' ++ [⟨_, stop⟩])), ?_, .pair hdx hdy⟩
      rw [rest_of_expect hopen, hs₂, rest_of_expect hcomma, hs₄, rest_of_expect hclose]
      simp only [List.append_assoc, List.cons_append, List.nil_append]
    have hrow := makes_points hmore
    exact .cons hskip hs hpoint (separated_pointEnd hend) hrow
termination_by 16 * s.size

end

/-! ## What follows -/

/-- **What was read of an expression are its words.** -/
theorem reads_annotated {r : Parsed Expr s.size} (h : s.annotated = .ok r) :
    s.Reads r.stream r.value.words := by
  obtain ⟨ls, hs, hd⟩ := makes_annotated h
  exact ⟨ls, hs, hd.spells⟩

theorem reads_units? {r : Parsed Expr s.size} (h : s.units? false = some r) :
    s.Reads r.stream r.value.words := by
  obtain ⟨content, span, hr, hs⟩ := rest_of_units? h
  have hliteral : (Expr.literal content span).Derives .value [⟨.literal content, span⟩] := .literal
  rw [hr]
  exact ⟨_, hs, hliteral.spells⟩

end Stream

end StockFlow
