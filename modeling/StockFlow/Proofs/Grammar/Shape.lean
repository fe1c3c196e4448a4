import Mathlib.Data.List.Basic
import StockFlow.Grammar.Expression

/-!
# Which trees are read

The readers of expressions give trees of one grammar. A tree fits a level if it has the form that
the reader of this level gives, so that brackets stand wherever a tree binds more loosely than its
place asks for. It is derived from tokens if they are written like this.

* `Expr.Fits` — the trees of a level
* `Expr.Derives` — which tokens a tree is read from, and where it stands then
* `Expr.Derives.fits` — what is derived at a level fits it
* `Expr.Derives.exists_head` — how the tokens start from which a tree is derived
-/

namespace StockFlow

/-- The sign of an operator. -/
def BinaryOp.sign : BinaryOp → Sign
  | add => .plus
  | sub => .minus
  | mul => .star
  | div => .slash
  | pow => .caret

/-- Whether a value may start with this token. -/
def Token.startsValue : Token → Bool
  | identifier _ | number _ | literal _ | opening _ => true
  | keyword _ | sign _ | closing _ | terminator | typeName _ => false

namespace Expr

/-- The readers of expressions from the loosest to the tightest binding, and those of the elements
of a structured value and of the points of a table. -/
inductive Level where
  | annotated
  | sum
  | product
  | power
  | negation
  | lookup
  | value
  | element
  | point
  deriving DecidableEq, Repr

/-- The trees of a level. -/
inductive Fits : Level → Expr → Prop
  | units {value : Expr} {content : String} {noteSpan span : Span} : Fits .sum value →
      Fits .annotated (.units value (.literal content noteSpan) span)
  | bare {e : Expr} : Fits .sum e → Fits .annotated e
  | sum {op : BinaryOp} {left right : Expr} {span : Span} : op.precedence = 1 →
      Fits .sum left → Fits .product right → Fits .sum (.binary op left right span)
  | ofProduct {e : Expr} : Fits .product e → Fits .sum e
  | product {op : BinaryOp} {left right : Expr} {span : Span} : op.precedence = 2 →
      Fits .product left → Fits .power right → Fits .product (.binary op left right span)
  | ofPower {e : Expr} : Fits .power e → Fits .product e
  | power {base exponent : Expr} {span : Span} : Fits .negation base → Fits .power exponent →
      Fits .power (.binary .pow base exponent span)
  | ofNegation {e : Expr} : Fits .negation e → Fits .power e
  | negate {operand : Expr} {span : Span} : Fits .negation operand →
      Fits .negation (.negate operand span)
  | ofLookup {e : Expr} : Fits .lookup e → Fits .negation e
  | index {t i : Expr} {span : Span} : Fits .lookup t → Fits .sum i → Fits .lookup (.index t i span)
  | ofValue {e : Expr} : Fits .value e → Fits .lookup e
  | var {name : String} {span : Span} : Fits .value (.var name span)
  | number {numeral : String} {span : Span} : (Decimal.Number.parse? numeral.toList).isSome →
      Fits .value (.number numeral span)
  | literal {content : String} {span : Span} : Fits .value (.literal content span)
  | paren {inner : Expr} {span : Span} : Fits .sum inner → Fits .value (.paren inner span)
  | composite {type : Option String} {elements : List Expr} {span : Span} :
      (∀ e ∈ elements, Fits .element e) → Fits .value (.composite type elements span)
  | table {points : List Expr} {span : Span} : (∀ p ∈ points, Fits .point p) →
      Fits .value (.table points span)
  | call {function : String} {args : List Expr} {span : Span} : (∀ a ∈ args, Fits .sum a) →
      Fits .value (.call function args span)
  | keyed {key : String} {value : Expr} {span : Span} : Fits .annotated value →
      Fits .element (.keyed key value span)
  | pair {x y : Expr} {span : Span} : Fits .sum x → Fits .sum y → Fits .point (.pair x y span)

/-! ## Tokens of a tree -/

/-- A member of a row, and the tokens that it is read from. -/
structure Member where
  used : List Lexeme
  tree : Expr

/-- Nothing but terminators. -/
def OnlyTerminators (ls : List Lexeme) : Prop := ∀ l ∈ ls, l.token = .terminator

/-- What stands between a member of a row and the rest of the row: a comma, or nothing in front of a
terminator or at the end. -/
inductive Separates : List Lexeme → List Lexeme → Prop
  | comma {span : Span} {ls : List Lexeme} : Separates [⟨.sign .comma, span⟩] ls
  | nothing {ls : List Lexeme} : (∀ l ∈ ls.head?, l.token = .terminator) → Separates [] ls

/-- How elements or points stand in a row. Terminators may stand before each of them and at the
end. -/
inductive Row : List Lexeme → List Member → Prop
  | done {ls : List Lexeme} : OnlyTerminators ls → Row ls []
  | member {skipped separator ls : List Lexeme} {m : Member} {ms : List Member} :
      OnlyTerminators skipped → Separates separator ls → Row ls ms →
      Row (skipped ++ (m.used ++ (separator ++ ls))) (m :: ms)

/-- How arguments stand in a row, with a comma between any two. -/
inductive Arguments : List Lexeme → List Member → Prop
  | none : Arguments [] []
  | last (m : Member) : Arguments m.used [m]
  | comma {ls : List Lexeme} {m m' : Member} {ms : List Member} {span : Span} :
      Arguments ls (m' :: ms) → Arguments (m.used ++ ⟨.sign .comma, span⟩ :: ls) (m :: m' :: ms)

/-- **The trees of a level and the tokens that they are read from,** which say where they stand. -/
inductive Derives : Level → List Lexeme → Expr → Prop
  | units {ls : List Lexeme} {value : Expr} {content : String} {span : Span} :
      Derives .sum ls value → Derives .annotated (ls ++ [⟨.literal content, span⟩])
        (.units value (.literal content span) (value.span.union span))
  | bare {ls : List Lexeme} {e : Expr} : Derives .sum ls e → Derives .annotated ls e
  | sum {ls ls' : List Lexeme} {op : BinaryOp} {left right : Expr} {sign : Span} :
      op.precedence = 1 → Derives .sum ls left → Derives .product ls' right →
      Derives .sum (ls ++ ⟨.sign op.sign, sign⟩ :: ls') (Stream.joined op left right)
  | ofProduct {ls : List Lexeme} {e : Expr} : Derives .product ls e → Derives .sum ls e
  | product {ls ls' : List Lexeme} {op : BinaryOp} {left right : Expr} {sign : Span} :
      op.precedence = 2 → Derives .product ls left → Derives .power ls' right →
      Derives .product (ls ++ ⟨.sign op.sign, sign⟩ :: ls') (Stream.joined op left right)
  | ofPower {ls : List Lexeme} {e : Expr} : Derives .power ls e → Derives .product ls e
  | power {ls ls' : List Lexeme} {base exponent : Expr} {sign : Span} :
      Derives .negation ls base → Derives .power ls' exponent →
      Derives .power (ls ++ ⟨.sign .caret, sign⟩ :: ls') (Stream.joined .pow base exponent)
  | ofNegation {ls : List Lexeme} {e : Expr} : Derives .negation ls e → Derives .power ls e
  | negate {ls : List Lexeme} {operand : Expr} {sign : Span} : Derives .negation ls operand →
      Derives .negation (⟨.sign .minus, sign⟩ :: ls)
        (.negate operand ⟨sign.start, operand.span.stop⟩)
  | ofLookup {ls : List Lexeme} {e : Expr} : Derives .lookup ls e → Derives .negation ls e
  | index {ls ls' : List Lexeme} {t i : Expr} {left right : Span} : Derives .lookup ls t →
      Derives .sum ls' i →
      Derives .lookup (ls ++ ⟨.opening .square, left⟩ :: (ls' ++ [⟨.closing .square, right⟩]))
        (.index t i ⟨t.span.start, right.stop⟩)
  | ofValue {ls : List Lexeme} {e : Expr} : Derives .value ls e → Derives .lookup ls e
  | var {name : String} {span : Span} : Derives .value [⟨.identifier name, span⟩] (.var name span)
  | number {numeral : String} {span : Span} : (Decimal.Number.parse? numeral.toList).isSome →
      Derives .value [⟨.number numeral, span⟩] (.number numeral span)
  | literal {content : String} {span : Span} :
      Derives .value [⟨.literal content, span⟩] (.literal content span)
  | paren {ls : List Lexeme} {inner : Expr} {left right : Span} : Derives .sum ls inner →
      Derives .value (⟨.opening .round, left⟩ :: (ls ++ [⟨.closing .round, right⟩]))
        (.paren inner ⟨left.start, right.stop⟩)
  | composite {ls : List Lexeme} {ms : List Member} {left right : Span} : Row ls ms →
      (∀ m ∈ ms, Derives .element m.used m.tree) →
      Derives .value (⟨.opening .brace, left⟩ :: (ls ++ [⟨.closing .brace, right⟩]))
        (.composite none (ms.map Member.tree) ⟨left.start, right.stop⟩)
  | typed {ls : List Lexeme} {ms : List Member} {type : String} {name left right : Span} :
      Row ls ms → (∀ m ∈ ms, Derives .element m.used m.tree) →
      Derives .value
        (⟨.identifier type, name⟩ :: ⟨.opening .brace, left⟩ ::
          (ls ++ [⟨.closing .brace, right⟩]))
        (.composite (some type) (ms.map Member.tree) ⟨name.start, right.stop⟩)
  | table {ls : List Lexeme} {ms : List Member} {left right : Span} : Row ls ms →
      (∀ m ∈ ms, Derives .point m.used m.tree) →
      Derives .value (⟨.opening .square, left⟩ :: (ls ++ [⟨.closing .square, right⟩]))
        (.table (ms.map Member.tree) ⟨left.start, right.stop⟩)
  | call {ls : List Lexeme} {ms : List Member} {function : String} {name left right : Span} :
      Arguments ls ms → (∀ m ∈ ms, Derives .sum m.used m.tree) →
      Derives .value
        (⟨.identifier function, name⟩ :: ⟨.opening .round, left⟩ ::
          (ls ++ [⟨.closing .round, right⟩]))
        (.call function (ms.map Member.tree) ⟨name.start, right.stop⟩)
  | keyed {ls : List Lexeme} {key : String} {value : Expr} {name colon : Span} :
      Derives .annotated ls value →
      Derives .element (⟨.identifier key, name⟩ :: ⟨.sign .colon, colon⟩ :: ls)
        (.keyed key value (name.union value.span))
  | pair {ls ls' : List Lexeme} {x y : Expr} {left comma right : Span} : Derives .sum ls x →
      Derives .sum ls' y →
      Derives .point
        (⟨.opening .round, left⟩ ::
          (ls ++ ⟨.sign .comma, comma⟩ :: (ls' ++ [⟨.closing .round, right⟩])))
        (.pair x y ⟨left.start, right.stop⟩)

namespace Derives

variable {k : Level} {ls : List Lexeme} {e : Expr}

/-- **What is derived at a level fits it.** -/
theorem fits (h : Derives k ls e) : Fits k e := by
  induction h with
  | units _ ih => exact .units ih
  | bare _ ih => exact .bare ih
  | sum hop _ _ ih ih' => exact .sum hop ih ih'
  | ofProduct _ ih => exact .ofProduct ih
  | product hop _ _ ih ih' => exact .product hop ih ih'
  | ofPower _ ih => exact .ofPower ih
  | power _ _ ih ih' => exact .power ih ih'
  | ofNegation _ ih => exact .ofNegation ih
  | negate _ ih => exact .negate ih
  | ofLookup _ ih => exact .ofLookup ih
  | index _ _ ih ih' => exact .index ih ih'
  | ofValue _ ih => exact .ofValue ih
  | var => exact .var
  | number h => exact .number h
  | literal => exact .literal
  | paren _ ih => exact .paren ih
  | composite _ _ ih | typed _ _ ih => exact .composite (List.forall_mem_map.mpr ih)
  | table _ _ ih => exact .table (List.forall_mem_map.mpr ih)
  | call _ _ ih => exact .call (List.forall_mem_map.mpr ih)
  | keyed _ ih => exact .keyed ih
  | pair _ _ ih ih' => exact .pair ih ih'

/-- **A tree starts like a value or with a minus sign,** and if it binds as tightly as a look-up, it
starts like a value. -/
theorem exists_head (h : Derives k ls e) : ∃ l ∈ ls.head?, l.token.startsValue = true ∨
    l.token = .sign .minus ∧ k ≠ .lookup ∧ k ≠ .value := by
  induction h with
  | bare _ ih | ofProduct _ ih | ofPower _ ih | ofNegation _ ih | ofLookup _ ih | ofValue _ ih =>
    obtain ⟨l, hl, hstarts⟩ := ih
    exact ⟨l, hl, hstarts.imp_right (by simp)⟩
  | units _ ih | sum _ _ _ ih | product _ _ _ ih | power _ _ ih | index _ _ ih =>
    obtain ⟨l, hl, hstarts⟩ := ih
    exact ⟨l, List.mem_head?_append_of_mem_head? hl, hstarts.imp_right (by simp)⟩
  | negate => exact ⟨_, rfl, Or.inr ⟨rfl, by simp⟩⟩
  | var | number | literal | paren | composite | typed | table | call | keyed | pair =>
    exact ⟨_, rfl, Or.inl rfl⟩

/-- No tree starts with a terminator or a closing bracket. -/
theorem head_ne (h : Derives k ls e) :
    ∃ l ∈ ls.head?, l.token ≠ .terminator ∧ ∀ b, l.token ≠ .closing b := by
  obtain ⟨l, hl, hstarts⟩ := h.exists_head
  refine ⟨l, hl, ?_, ?_⟩
  · intro ht
    simp [ht, Token.startsValue] at hstarts
  · intro b ht
    simp [ht, Token.startsValue] at hstarts

end Derives

/-- Arguments do not start with a closing bracket. -/
theorem Arguments.head_ne {k : Level} {ls : List Lexeme} {ms : List Member} (h : Arguments ls ms)
    (hms : ∀ m ∈ ms, Derives k m.used m.tree) :
    ms = [] ∧ ls = [] ∨ ∃ l ∈ ls.head?, ∀ b, l.token ≠ .closing b := by
  cases h with
  | none => exact Or.inl ⟨rfl, rfl⟩
  | last m =>
    obtain ⟨l, hl, -, hne⟩ := (hms m (List.mem_singleton_self m)).head_ne
    exact Or.inr ⟨l, hl, hne⟩
  | comma _ =>
    obtain ⟨l, hl, -, hne⟩ := (hms _ (List.mem_cons_self ..)).head_ne
    exact Or.inr ⟨l, List.mem_head?_append_of_mem_head? hl, hne⟩

/-- No row starts with a closing bracket. -/
theorem Row.head_ne {k : Level} {ls : List Lexeme} {ms : List Member} (h : Row ls ms)
    (hms : ∀ m ∈ ms, Derives k m.used m.tree) : ∀ l ∈ ls.head?, ∀ b, l.token ≠ .closing b := by
  have hskipped {skipped rest : List Lexeme} (hskip : OnlyTerminators skipped)
      (hrest : ∀ l ∈ rest.head?, ∀ b, l.token ≠ .closing b) :
      ∀ l ∈ (skipped ++ rest).head?, ∀ b, l.token ≠ .closing b := by
    cases skipped with
    | nil => exact hrest
    | cons l' skipped =>
      intro l hl b
      obtain rfl := Option.some.inj hl
      rw [hskip _ (List.mem_cons_self ..)]
      exact nofun
  have hmember {m : Member} {rest : List Lexeme} (hm : Derives k m.used m.tree) :
      ∀ l ∈ (m.used ++ rest).head?, ∀ b, l.token ≠ .closing b := by
    obtain ⟨l', hl', -, hne⟩ := hm.head_ne
    intro l hl
    exact Option.mem_unique (List.mem_head?_append_of_mem_head? hl') hl ▸ hne
  cases h with
  | done hls =>
    have h := @hskipped _ [] hls nofun
    rwa [List.append_nil] at h
  | member hskip _ _ => exact hskipped hskip (hmember (hms _ (List.mem_cons_self ..)))

end Expr

end StockFlow
