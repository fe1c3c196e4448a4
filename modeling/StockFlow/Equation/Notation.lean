import StockFlow.Equation.Formula

/-!
# Equations as text

A formula is written with as few parentheses as its structure allows.

* `Formula.text` — a formula as text
* `Equations.text` — all rules of a model, one on a line
-/

namespace StockFlow

namespace Formula

/-- Puts parentheses around a text. -/
def parenthesized (text : String) : String := "(" ++ text ++ ")"

/-- Whether an operand needs parentheses under an operator. It does if it is a weaker operation, and
if it is one of equal strength on the side to which the operator does not lean: powers lean right,
all others left. -/
def needsParens {α : Type} (op : BinaryOp) (isRight : Bool) : Formula α → Bool
  | binary inner _ _ =>
    inner.precedence < op.precedence ||
      (inner.precedence = op.precedence && isRight != (op == .pow))
  | _ => false

/-- Whether an operand needs parentheses under a minus sign. -/
def isBinary {α : Type} : Formula α → Bool
  | binary _ _ _ => true
  | _ => false

/-- The text of an operand, in parentheses if it needs them. -/
def wrap (parens : Bool) (text : String) : String := if parens then parenthesized text else text

/-- A formula as text. -/
def text : Formula Float → String
  | const value => Decimal.plain value
  | var name => name
  | default name => "default(" ++ name ++ ")"
  | dt => "dt"
  | negate x => "-" ++ wrap x.isBinary x.text
  | binary op l r =>
    wrap (l.needsParens op false) l.text ++ " " ++ op.symbol ++ " "
      ++ wrap (r.needsParens op true) r.text
  | lookup table index => "lookup(" ++ table ++ ", " ++ index.text ++ ")"
  | pi => Builtin.piName
  | apply1 f x => f.name ++ "(" ++ x.text ++ ")"
  | apply2 f x y => f.name ++ "(" ++ x.text ++ ", " ++ y.text ++ ")"

end Formula

/-- A rule on a line. -/
def Rule.line (r : Rule Float) : String := "\t" ++ r.name ++ " = " ++ r.formula.text ++ "\n"

/-- A point of a table as text. -/
def Table.pointText (p : Float × Float) : String :=
  "(" ++ Decimal.plain p.1 ++ ", " ++ Decimal.plain p.2 ++ ")"

/-- A table on a line. -/
def Table.line (name : String) (t : Table Float) : String :=
  "\t" ++ name ++ " = [" ++ ", ".intercalate (t.points.map pointText) ++ "]\n"

/-- Lines under a title. -/
def titled (title : String) (lines : List String) : String := title ++ ":\n" ++ String.join lines

/-- All rules of a model, in the order in which they are worked off, and its tables by name. -/
def Equations.text (e : Equations Float) : String :=
  titled "initials" (e.initials.map Rule.line)
    ++ titled "flows" (e.flows.map Rule.line)
    ++ titled "stocks" (e.stocks.map Rule.line)
    ++ titled "tables" (e.tables.toList.map fun (name, t) => Table.line name t)

end StockFlow
