import StockFlow.Decimal.Reading
import StockFlow.Source.Position

/-!
# Expressions

The expressions of a model text, as they are written: parentheses and unit notes are kept, and
every node knows where it stands.

* `Expr.text` — an expression as text
* `Expr.constant?` — the value of a number, perhaps negated, perhaps with units
-/

namespace StockFlow

/-- Operators between two values. -/
inductive BinaryOp where
  | add
  | sub
  | mul
  | div
  | pow
  deriving DecidableEq, Repr

namespace BinaryOp

/-- How tightly an operator binds. -/
def precedence : BinaryOp → Nat
  | add | sub => 1
  | mul | div => 2
  | pow => 3

/-- How an operator is written. -/
def symbol : BinaryOp → String
  | add => "+"
  | sub => "-"
  | mul => "*"
  | div => "/"
  | pow => "^"

end BinaryOp

/-- An expression as it is written. -/
inductive Expr where
  | var (name : String) (span : Span)
  /-- A numeral. -/
  | number (numeral : String) (span : Span)
  | literal (content : String) (span : Span)
  /-- A structured value, perhaps of a named type, such as the body of a stock. -/
  | composite (type : Option String) (elements : List Expr) (span : Span)
  | paren (inner : Expr) (span : Span)
  | negate (operand : Expr) (span : Span)
  | binary (op : BinaryOp) (left right : Expr) (span : Span)
  /-- An element of a structured value. -/
  | keyed (key : String) (value : Expr) (span : Span)
  /-- A point of a table. -/
  | pair (x y : Expr) (span : Span)
  | table (points : List Expr) (span : Span)
  /-- A value with a note of its units. -/
  | units (value note : Expr) (span : Span)
  /-- A table looked up at an index. -/
  | index (table index : Expr) (span : Span)
  | call (function : String) (args : List Expr) (span : Span)
  deriving Repr, Inhabited, BEq

namespace Expr

/-- Where an expression stands. -/
def span : Expr → Span
  | var _ s | number _ s | literal _ s | composite _ _ s | paren _ s | negate _ s | binary _ _ _ s
  | keyed _ _ s | pair _ _ s | table _ s | units _ _ s | index _ _ s | call _ _ s => s

mutual

/-- An expression as text. -/
def text : Expr → String
  | var name _ => name
  | number numeral _ => numeral
  | literal content _ => "\"" ++ content ++ "\""
  | composite none elements _ => "\x7b" ++ ", ".intercalate (texts elements) ++ "\x7d"
  | composite (some type) elements _ =>
    type ++ " \x7b" ++ ", ".intercalate (texts elements) ++ "\x7d"
  | paren inner _ => "(" ++ inner.text ++ ")"
  | negate operand _ => "-" ++ operand.text
  | binary op left right _ => left.text ++ " " ++ op.symbol ++ " " ++ right.text
  | keyed key value _ => key ++ ": " ++ value.text
  | pair x y _ => "(" ++ x.text ++ ", " ++ y.text ++ ")"
  | table points _ => "[" ++ ", ".intercalate (texts points) ++ "]"
  | units value note _ => value.text ++ " " ++ note.text
  | index t i _ => t.text ++ "[" ++ i.text ++ "]"
  | call function args _ => function ++ "(" ++ ", ".intercalate (texts args) ++ ")"

/-- Each of some expressions as text. -/
def texts : List Expr → List String
  | [] => []
  | e :: es => e.text :: texts es

end

instance : ToString Expr := ⟨text⟩

/-- The value without a note of its units. Units are not part of a value. -/
def stripUnits : Expr → Expr
  | units value _ _ => value
  | e => e

/-- The value of a numeral, perhaps negated, perhaps with units. No other expression counts as
constant, not even arithmetic on numerals. -/
def constant? (e : Expr) : Option Float :=
  match e.stripUnits with
  | number numeral _ => some (Decimal.ofNumeral numeral)
  | negate (number numeral _) _ => some (-Decimal.ofNumeral numeral)
  | _ => none

/-- Whether an expression is a table or a table looked up. -/
def isTable (e : Expr) : Bool :=
  match e.stripUnits with
  | table _ _ => true
  | index t _ _ =>
    match t.stripUnits with
    | table _ _ => true
    | _ => false
  | _ => false

/-- Whether an expression is the body of a stock. -/
def isStockBody (e : Expr) : Bool :=
  match e.stripUnits with
  | composite none _ _ => true
  | composite (some type) _ _ => type = "stock"
  | _ => false

end Expr

end StockFlow
