import StockFlow.Equation.Notation
import StockFlow.Proofs.Decimal.Written
import StockFlow.Proofs.Grammar.Written

/-!
# Formulas as trees

The text of a formula is that of a tree in which parentheses stand where they are needed. What the
tree says is the formula again, but for the signs of its constants: a negative constant is written
as a minus sign in front of its size.

* `Formula.tree` — the tree whose text is that of a formula
* `Formula.fits_tree` — parentheses stand wherever a tree binds more loosely than its place asks for
* `Formula.ofTree?` — the formula that a tree says
* `Formula.ofTree?_tree` — the tree of a formula says the formula, without the signs of its
  constants
-/

namespace StockFlow

namespace Formula

variable {α : Type}

/-! ## What stands in a formula -/

/-- The constants of a formula. -/
def constants : Formula α → List α
  | const x => [x]
  | var _ | default _ | dt | pi => []
  | negate x | lookup _ x | apply1 _ x => x.constants
  | binary _ x y | apply2 _ x y => x.constants ++ y.constants

/-- The variables and tables that a formula names. -/
def names : Formula α → List String
  | const _ | dt | pi => []
  | var name | default name => [name]
  | lookup table x => table :: x.names
  | negate x | apply1 _ x => x.names
  | binary _ x y | apply2 _ x y => x.names ++ y.names

/-- A formula with the sizes of its negative constants, negated, in their place. -/
def unsigned : Formula Float → Formula Float
  | const x => if Decimal.isNegative x then negate (const x.abs) else const x
  | var name => var name
  | default name => default name
  | dt => dt
  | negate x => negate x.unsigned
  | binary op x y => binary op x.unsigned y.unsigned
  | lookup table x => lookup table x.unsigned
  | pi => pi
  | apply1 f x => apply1 f x.unsigned
  | apply2 f x y => apply2 f x.unsigned y.unsigned

/-! ## What a tree says -/

/-- The formula of a name. -/
def ofWord (name : String) : Formula Float :=
  if name = "dt" then dt else if name = Builtin.piName then pi else var name

/-- The formula of a call. -/
def ofCall? : String → List (Formula Float) → Option (Formula Float)
  | "default", [var name] => some (default name)
  | "lookup", [var table, index] => some (lookup table index)
  | function, args => (Builtin.ofName? function args).map ofBuiltin

mutual

/-- The formula that a tree says, parentheses left out; `none` for a tree that no formula is printed
as. -/
def ofTree? : Expr → Option (Formula Float)
  | .var name _ => some (ofWord name)
  | .number numeral _ => some (const (Decimal.ofNumeral numeral))
  | .paren inner _ => ofTree? inner
  | .negate operand _ => negate <$> ofTree? operand
  | .binary op left right _ => binary op <$> ofTree? left <*> ofTree? right
  | .call function args _ => ofTrees? args >>= ofCall? function
  | .literal _ _ | .composite _ _ _ | .keyed _ _ _ | .pair _ _ _ | .table _ _ | .units _ _ _
  | .index _ _ _ => none

/-- The formulas that some trees say. -/
def ofTrees? : List Expr → Option (List (Formula Float))
  | [] => some []
  | e :: es => List.cons <$> ofTree? e <*> ofTrees? es

end

/-- **What a tree says does not depend on where it stands.** -/
theorem ofTree?_unplaced (e : Expr) : ofTree? e.unplaced = ofTree? e := by
  induction e using Expr.induction with
  | call function args span ih =>
    have hargs : ofTrees? (Expr.unplacedAll args) = ofTrees? args := by
      induction args with
      | nil => rfl
      | cons e es ihes =>
        obtain ⟨he, hes⟩ := List.forall_mem_cons.mp ih
        rw [Expr.unplacedAll, ofTrees?, ofTrees?, he, ihes hes]
    rw [Expr.unplaced, ofTree?, ofTree?, hargs]
  | paren inner span ih => rw [Expr.unplaced, ofTree?, ofTree?, ih]
  | negate operand span ih => rw [Expr.unplaced, ofTree?, ofTree?, ih]
  | binary op left right span ih ih' => rw [Expr.unplaced, ofTree?, ofTree?, ih, ih']
  | _ => rfl

/-! ## The tree of a formula -/

/-- Where a tree stands that stands nowhere. -/
def nowhere : Span := Inhabited.default

/-- A tree, in parentheses if it needs them. -/
def enclosed (parens : Bool) (e : Expr) : Expr := if parens then .paren e nowhere else e

/-- The tree whose text is that of a formula. -/
def tree : Formula Float → Expr
  | const x =>
    if Decimal.isNegative x then .negate (.number (Decimal.plain x.abs) nowhere) nowhere
    else .number (Decimal.plain x) nowhere
  | var name => .var name nowhere
  | default name => .call "default" [.var name nowhere] nowhere
  | dt => .var "dt" nowhere
  | negate x => .negate (enclosed x.isBinary x.tree) nowhere
  | binary op l r =>
    .binary op (enclosed (l.needsParens op false) l.tree) (enclosed (r.needsParens op true) r.tree)
      nowhere
  | lookup table index => .call "lookup" [.var table nowhere, index.tree] nowhere
  | pi => .var Builtin.piName nowhere
  | apply1 f x => .call f.name [x.tree] nowhere
  | apply2 f x y => .call f.name [x.tree, y.tree] nowhere

theorem text_enclosed (parens : Bool) (e : Expr) :
    (enclosed parens e).text = wrap parens e.text := by
  cases parens <;> rfl

theorem ofTree?_enclosed (parens : Bool) (e : Expr) : ofTree? (enclosed parens e) = ofTree? e := by
  cases parens with
  | false => rfl
  | true => rw [enclosed, if_pos rfl, ofTree?]

/-- **The text of a formula is that of its tree.** -/
theorem text_tree {f : Formula Float} (hfinite : ∀ x ∈ f.constants, x.isFinite = true) :
    f.tree.text = f.text := by
  induction f with
  | const x =>
    rcases Decimal.plain_cases (hfinite x (List.mem_singleton_self x)) with
      ⟨hsign, htext, -⟩ | ⟨hsign, -, -⟩
    · rw [tree, hsign, text, htext]
      rfl
    · rw [tree, hsign]
      rfl
  | var name => rfl
  | default name => simp [tree, text, Expr.text, Expr.texts, String.append_assoc]
  | dt => rfl
  | pi => rfl
  | negate x ih => rw [tree, text, Expr.text, text_enclosed, ih hfinite]
  | binary op x y ihx ihy =>
    obtain ⟨hx, hy⟩ := List.forall_mem_append.mp hfinite
    rw [tree, text, Expr.text, text_enclosed, text_enclosed, ihx hx, ihy hy]
  | lookup table x ih =>
    simp [tree, text, Expr.text, Expr.texts, ih hfinite, String.append_assoc]
  | apply1 f x ih => simp [tree, text, Expr.text, Expr.texts, ih hfinite]
  | apply2 f x y ihx ihy =>
    obtain ⟨hx, hy⟩ := List.forall_mem_append.mp hfinite
    simp [tree, text, Expr.text, Expr.texts, ihx hx, ihy hy, String.append_assoc]

/-! ## Parentheses stand where they are needed -/

open StockFlow.Expr (Fits)

/-- How tightly the text of a formula binds: as its operator does, and more tightly than any
operator if there is none. -/
def strength : Formula α → Nat
  | binary op _ _ => op.precedence
  | _ => 4

/-- How tightly an operand has to bind to stand without parentheses. -/
def demand (op : BinaryOp) (isRight : Bool) : Nat :=
  op.precedence + if isRight != (op == .pow) then 1 else 0

/-- The trees that bind so tightly. -/
def level : Nat → Expr.Level
  | 0 | 1 => .sum
  | 2 => .product
  | 3 => .power
  | _ => .negation

theorem needsParens_eq (op : BinaryOp) (isRight : Bool) (f : Formula α) :
    f.needsParens op isRight = decide (f.strength < demand op isRight) := by
  cases f with
  | binary inner x y => cases op <;> cases isRight <;> cases inner <;> rfl
  | _ => cases op <;> cases isRight <;> rfl

theorem isBinary_eq (f : Formula α) : f.isBinary = decide (f.strength < 4) := by
  cases f with
  | binary op x y => cases op <;> rfl
  | _ => rfl

variable {e l r : Expr} {n k : Nat}

theorem fits_of_le (hnk : n ≤ k) (h : Fits (level k) e) : Fits (level n) e := by
  induction hnk with
  | refl => exact h
  | @step k _ ih =>
    refine ih ?_
    match k with
    | 0 => exact h
    | 1 => exact .ofProduct h
    | 2 => exact .ofPower h
    | 3 => exact .ofNegation h
    | _ + 4 => exact h

theorem fits_of_value (h : Fits .value e) (n : Nat) : Fits (level n) e :=
  fits_of_le (Nat.le_add_right n 4) (.ofLookup (.ofValue h))

/-- A tree that binds too loosely fits in parentheses. -/
theorem fits_enclosed (h : Fits (level k) e) (n : Nat) :
    Fits (level n) (enclosed (decide (k < n)) e) := by
  by_cases hlt : k < n
  · rw [decide_eq_true hlt]
    exact fits_of_value (.paren (fits_of_le (Nat.zero_le k) h)) n
  · rw [decide_eq_false hlt]
    exact fits_of_le (Nat.le_of_not_lt hlt) h

theorem fits_binary {op : BinaryOp} {span : Span} (hl : Fits (level (demand op false)) l)
    (hr : Fits (level (demand op true)) r) : Fits (level op.precedence) (.binary op l r span) := by
  cases op with
  | add | sub => exact .sum rfl hl hr
  | mul | div => exact .product rfl hl hr
  | pow => exact .power hl hr

theorem fits_call {function : String} {args : List Expr} {span : Span}
    (h : ∀ a ∈ args, Fits (level 0) a) : Fits (level 4) (.call function args span) :=
  fits_of_value (.call h) 4

theorem fits_strength_tree {f : Formula Float} (hfinite : ∀ x ∈ f.constants, x.isFinite = true) :
    Fits (level f.strength) f.tree := by
  induction f with
  | const x =>
    rcases Decimal.plain_cases (hfinite x (List.mem_singleton_self x)) with
      ⟨hsign, -, hnumeral⟩ | ⟨hsign, -, hnumeral⟩
    · rw [tree, hsign]
      exact .negate (fits_of_value (.number hnumeral) 4)
    · rw [tree, hsign]
      exact fits_of_value (.number hnumeral) 4
  | var | dt | pi => exact fits_of_value .var 4
  | default name => exact fits_call (List.forall_mem_singleton.mpr (fits_of_value .var 0))
  | negate x ih =>
    rw [tree, isBinary_eq]
    exact .negate (fits_enclosed (ih hfinite) 4)
  | binary op x y ihx ihy =>
    obtain ⟨hx, hy⟩ := List.forall_mem_append.mp hfinite
    rw [tree, needsParens_eq, needsParens_eq]
    exact fits_binary (fits_enclosed (ihx hx) _) (fits_enclosed (ihy hy) _)
  | lookup table x ih =>
    have hx : Fits (level 0) x.tree := fits_of_le (Nat.zero_le _) (ih hfinite)
    refine fits_call (List.forall_mem_cons.mpr ⟨fits_of_value .var 0, ?_⟩)
    exact List.forall_mem_singleton.mpr hx
  | apply1 f x ih =>
    have hx : Fits (level 0) x.tree := fits_of_le (Nat.zero_le _) (ih hfinite)
    exact fits_call (List.forall_mem_singleton.mpr hx)
  | apply2 f x y ihx ihy =>
    obtain ⟨hx, hy⟩ := List.forall_mem_append.mp hfinite
    have hx : Fits (level 0) x.tree := fits_of_le (Nat.zero_le _) (ihx hx)
    have hy : Fits (level 0) y.tree := fits_of_le (Nat.zero_le _) (ihy hy)
    exact fits_call (List.forall_mem_cons.mpr ⟨hx, List.forall_mem_singleton.mpr hy⟩)

/-- **A formula is printed with the parentheses that reading it takes.** -/
theorem fits_tree {f : Formula Float} (hfinite : ∀ x ∈ f.constants, x.isFinite = true) :
    Fits .annotated f.tree :=
  .bare (fits_of_le (Nat.zero_le _) (fits_strength_tree hfinite))

/-! ## The tokens of the tree can be written -/

/-- A name under which a variable or a table is printed as itself. -/
structure IsPrinted (name : String) : Prop where
  isName : Token.IsName name
  ne_dt : name ≠ "dt"
  ne_pi : name ≠ Builtin.piName

instance (name : String) : Decidable (IsPrinted name) :=
  decidable_of_iff (Token.IsName name ∧ name ≠ "dt" ∧ name ≠ Builtin.piName)
    ⟨fun ⟨h, h', h''⟩ => ⟨h, h', h''⟩, fun ⟨h, h', h''⟩ => ⟨h, h', h''⟩⟩

theorem lexical_enclosed {parens : Bool} (h : ∀ t ∈ e.tokens, t.Lexical) :
    ∀ t ∈ (enclosed parens e).tokens, t.Lexical := by
  cases parens with
  | false => exact h
  | true =>
    refine List.forall_mem_cons.mpr ⟨trivial, List.forall_mem_append.mpr ⟨h, ?_⟩⟩
    exact List.forall_mem_singleton.mpr trivial

theorem lexical_call {function : String} {args : List Expr} {span : Span}
    (hname : Token.IsName function) (hargs : ∀ a ∈ args, ∀ t ∈ a.tokens, t.Lexical) :
    ∀ t ∈ (Expr.call function args span).tokens, t.Lexical := by
  have hrow : ∀ t ∈ Expr.rowTokens args, t.Lexical := by
    intro t ht
    rcases Expr.mem_rowTokens ht with rfl | ⟨a, ha, ht⟩
    · trivial
    · exact hargs a ha t ht
  rw [Expr.tokens]
  refine List.forall_mem_cons.mpr ⟨hname, List.forall_mem_cons.mpr ⟨trivial, ?_⟩⟩
  exact List.forall_mem_append.mpr ⟨hrow, List.forall_mem_singleton.mpr trivial⟩

theorem lexical_var {name : String} {span : Span} (h : Token.IsName name) :
    ∀ t ∈ (Expr.var name span).tokens, t.Lexical := List.forall_mem_singleton.mpr h

/-- **The tokens of the tree of a formula can be written.** -/
theorem lexical_tree {f : Formula Float} (hfinite : ∀ x ∈ f.constants, x.isFinite = true)
    (hnames : ∀ name ∈ f.names, Token.IsName name) : ∀ t ∈ f.tree.tokens, t.Lexical := by
  induction f with
  | const x =>
    rcases Decimal.plain_cases (hfinite x (List.mem_singleton_self x)) with
      ⟨hsign, -, hnumeral⟩ | ⟨hsign, -, hnumeral⟩
    · rw [tree, hsign]
      exact List.forall_mem_cons.mpr ⟨trivial, List.forall_mem_singleton.mpr hnumeral⟩
    · rw [tree, hsign]
      exact List.forall_mem_singleton.mpr hnumeral
  | var name => exact lexical_var (hnames name (List.mem_singleton_self name))
  | dt | pi => exact lexical_var (by decide)
  | default name =>
    refine lexical_call (by decide) (List.forall_mem_singleton.mpr (lexical_var ?_))
    exact hnames name (List.mem_singleton_self name)
  | negate x ih =>
    exact List.forall_mem_cons.mpr ⟨trivial, lexical_enclosed (ih hfinite hnames)⟩
  | binary op x y ihx ihy =>
    obtain ⟨hx, hy⟩ := List.forall_mem_append.mp hfinite
    obtain ⟨hx', hy'⟩ := List.forall_mem_append.mp hnames
    refine List.forall_mem_append.mpr ⟨lexical_enclosed (ihx hx hx'), ?_⟩
    exact List.forall_mem_cons.mpr ⟨trivial, lexical_enclosed (ihy hy hy')⟩
  | lookup table x ih =>
    obtain ⟨htable, hx⟩ := List.forall_mem_cons.mp hnames
    refine lexical_call (by decide) (List.forall_mem_cons.mpr ⟨lexical_var htable, ?_⟩)
    exact List.forall_mem_singleton.mpr (ih hfinite hx)
  | apply1 f x ih =>
    have hname : Token.IsName f.name := by cases f <;> decide
    exact lexical_call hname (List.forall_mem_singleton.mpr (ih hfinite hnames))
  | apply2 f x y ihx ihy =>
    obtain ⟨hx, hy⟩ := List.forall_mem_append.mp hfinite
    obtain ⟨hx', hy'⟩ := List.forall_mem_append.mp hnames
    have hname : Token.IsName f.name := by cases f <;> decide
    refine lexical_call hname (List.forall_mem_cons.mpr ⟨ihx hx hx', ?_⟩)
    exact List.forall_mem_singleton.mpr (ihy hy hy')

/-! ## The tree says the formula -/

theorem ofWord_of_isPrinted {name : String} (h : IsPrinted name) : ofWord name = var name := by
  rw [ofWord, if_neg h.ne_dt, if_neg h.ne_pi]

theorem ofCall?_name (c : Builtin (Formula Float)) :
    ofCall? c.name c.args = some (ofBuiltin c) := by
  cases c with
  | pi => rfl
  | unary f x => cases f <;> rfl
  | binary f x y => cases f <;> rfl

/-- **The tree of a formula says the formula,** without the signs of its constants, if their
decimals are read back. -/
theorem ofTree?_tree {f : Formula Float} (hfinite : ∀ x ∈ f.constants, x.isFinite = true)
    (hread : ∀ x ∈ f.constants, Decimal.ofNumeral (Decimal.plain x.abs) = x.abs)
    (hnames : ∀ name ∈ f.names, IsPrinted name) : ofTree? f.tree = some f.unsigned := by
  induction f with
  | const x =>
    have hx := hread x (List.mem_singleton_self x)
    rcases Decimal.plain_cases (hfinite x (List.mem_singleton_self x)) with
      ⟨hsign, -, -⟩ | ⟨hsign, habs, -⟩
    · rw [tree, unsigned, if_pos hsign, if_pos hsign, ofTree?, ofTree?, hx]
      rfl
    · rw [tree, unsigned, hsign, if_neg Bool.false_ne_true, if_neg Bool.false_ne_true, ofTree?]
      rw [habs] at hx
      rw [hx]
  | var name =>
    rw [tree, ofTree?, ofWord_of_isPrinted (hnames name (List.mem_singleton_self name)), unsigned]
  | dt | pi => rfl
  | default name =>
    rw [tree, ofTree?, ofTrees?, ofTrees?, ofTree?,
      ofWord_of_isPrinted (hnames name (List.mem_singleton_self name)), unsigned]
    rfl
  | negate x ih =>
    rw [tree, ofTree?, ofTree?_enclosed, ih hfinite hread hnames, unsigned]
    rfl
  | binary op x y ihx ihy =>
    obtain ⟨hx, hy⟩ := List.forall_mem_append.mp hfinite
    obtain ⟨hx', hy'⟩ := List.forall_mem_append.mp hread
    obtain ⟨hx'', hy''⟩ := List.forall_mem_append.mp hnames
    rw [tree, ofTree?, ofTree?_enclosed, ofTree?_enclosed, ihx hx hx' hx'', ihy hy hy' hy'',
      unsigned]
    rfl
  | lookup table x ih =>
    obtain ⟨htable, hx⟩ := List.forall_mem_cons.mp hnames
    rw [tree, ofTree?, ofTrees?, ofTrees?, ofTrees?, ofTree?, ofWord_of_isPrinted htable,
      ih hfinite hread hx, unsigned]
    rfl
  | apply1 f x ih =>
    rw [tree, ofTree?, ofTrees?, ofTrees?, ih hfinite hread hnames, unsigned]
    exact ofCall?_name (.unary f x.unsigned)
  | apply2 f x y ihx ihy =>
    obtain ⟨hx, hy⟩ := List.forall_mem_append.mp hfinite
    obtain ⟨hx', hy'⟩ := List.forall_mem_append.mp hread
    obtain ⟨hx'', hy''⟩ := List.forall_mem_append.mp hnames
    rw [tree, ofTree?, ofTrees?, ofTrees?, ofTrees?, ihx hx hx' hx'', ihy hy hy' hy'', unsigned]
    exact ofCall?_name (.binary f x.unsigned y.unsigned)

end Formula

end StockFlow
