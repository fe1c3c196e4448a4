import StockFlow.Grammar.Stream
import StockFlow.Tree.Expr

/-!
# Reading expressions

From the loosest to the tightest binding an expression is a sum, a product, a power, a negation, a
look-up, and last a single value. Sums and products lean left and powers right; a minus sign in
front binds tighter than any operator.

* `Stream.expression` — reads an expression
* `Stream.annotated` — reads an expression and perhaps a note of its units

## Termination

Every call passes on fewer tokens, or the same tokens to a tighter level. The measure counts sixteen
for each token and adds the level.
-/

namespace StockFlow.Stream

/-- Takes the sign of an addition or subtraction. -/
def additive? (s : Stream) : Option (Parsed BinaryOp s.size) :=
  match s.next? with
  | some ⟨⟨.sign .plus, _⟩, s₁, h⟩ => some ⟨.add, s₁, h⟩
  | some ⟨⟨.sign .minus, _⟩, s₁, h⟩ => some ⟨.sub, s₁, h⟩
  | _ => none

/-- Takes the sign of a multiplication or division. -/
def multiplicative? (s : Stream) : Option (Parsed BinaryOp s.size) :=
  match s.next? with
  | some ⟨⟨.sign .star, _⟩, s₁, h⟩ => some ⟨.mul, s₁, h⟩
  | some ⟨⟨.sign .slash, _⟩, s₁, h⟩ => some ⟨.div, s₁, h⟩
  | _ => none

/-- Takes a note of units. Where `typed` holds, a name in backticks is one too. -/
def units? (s : Stream) (typed : Bool) : Option (Parsed Expr s.size) :=
  match s.next? with
  | some ⟨⟨.literal content, span⟩, s₁, h⟩ => some ⟨.literal content span, s₁, h⟩
  | some ⟨⟨.typeName content, span⟩, s₁, h⟩ =>
    if typed then some ⟨.literal content span, s₁, h⟩ else none
  | _ => none

/-- Two operands under an operator. -/
def joined (op : BinaryOp) (left right : Expr) : Expr :=
  .binary op left right (left.span.union right.span)

/-- Behind an element of a structured value stands a comma, which is taken, or a line end or the
closing brace. -/
def elementEnd (s : Stream) : Parse Unit (s.size + 1) :=
  match s.next? with
  | some ⟨⟨.sign .comma, _⟩, s₁, h⟩ => .ok ⟨(), s₁, lt_succ_of_lt h⟩
  | some ⟨⟨.terminator, _⟩, _, _⟩ | some ⟨⟨.closing .brace, _⟩, _, _⟩ =>
    .ok ⟨(), s, s.lt_succ⟩
  | _ => .error (s.unexpected .elementEnd)

/-- Behind a point of a table stands a comma, which is taken, or a line end or the closing
bracket. -/
def pointEnd (s : Stream) : Parse Unit (s.size + 1) :=
  match s.next? with
  | some ⟨⟨.sign .comma, _⟩, s₁, h⟩ => .ok ⟨(), s₁, lt_succ_of_lt h⟩
  | some ⟨⟨.terminator, _⟩, _, _⟩ | some ⟨⟨.closing .square, _⟩, _, _⟩ =>
    .ok ⟨(), s, s.lt_succ⟩
  | _ => .error (s.unexpected .pointEnd)

mutual

/-- Reads an expression and perhaps a note of its units. -/
def annotated (s : Stream) : Parse Expr s.size := do
  let ⟨value, s₁, h₁⟩ ← expression s
  match s₁.units? false with
  | some ⟨note, s₂, h₂⟩ =>
    return ⟨.units value note (value.span.union note.span), s₂, by omega⟩
  | none => return ⟨value, s₁, h₁⟩
termination_by 16 * s.size + 7

/-- Reads an expression: operands joined by `+` and `-`. -/
def expression (s : Stream) : Parse Expr s.size := do
  let ⟨left, s₁, h₁⟩ ← product s
  let ⟨e, s₂, h₂⟩ ← expressionTail left s₁
  return ⟨e, s₂, by omega⟩
termination_by 16 * s.size + 6

/-- Reads the further operands of a sum. -/
def expressionTail (left : Expr) (s : Stream) : Parse Expr (s.size + 1) :=
  match s.additive? with
  | none => return ⟨left, s, s.lt_succ⟩
  | some ⟨op, s₁, h₁⟩ => do
    let ⟨right, s₂, h₂⟩ ← product s₁
    let ⟨e, s₃, h₃⟩ ← expressionTail (joined op left right) s₂
    return ⟨e, s₃, by omega⟩
termination_by 16 * s.size

/-- Reads operands joined by `*` and `/`. -/
def product (s : Stream) : Parse Expr s.size := do
  let ⟨left, s₁, h₁⟩ ← power s
  let ⟨e, s₂, h₂⟩ ← productTail left s₁
  return ⟨e, s₂, by omega⟩
termination_by 16 * s.size + 5

/-- Reads the further operands of a product. -/
def productTail (left : Expr) (s : Stream) : Parse Expr (s.size + 1) :=
  match s.multiplicative? with
  | none => return ⟨left, s, s.lt_succ⟩
  | some ⟨op, s₁, h₁⟩ => do
    let ⟨right, s₂, h₂⟩ ← power s₁
    let ⟨e, s₃, h₃⟩ ← productTail (joined op left right) s₂
    return ⟨e, s₃, by omega⟩
termination_by 16 * s.size

/-- Reads a base and perhaps its exponent, which is a power itself. -/
def power (s : Stream) : Parse Expr s.size := do
  let ⟨base, s₁, h₁⟩ ← negation s
  match s₁.take? (.sign .caret) with
  | none => return ⟨base, s₁, h₁⟩
  | some ⟨_, s₂, h₂⟩ =>
    let ⟨exponent, s₃, h₃⟩ ← power s₂
    return ⟨joined .pow base exponent, s₃, by omega⟩
termination_by 16 * s.size + 4

/-- Reads a value behind any number of minus signs. -/
def negation (s : Stream) : Parse Expr s.size :=
  match s.take? (.sign .minus) with
  | none => lookup s
  | some ⟨sign, s₁, h₁⟩ => do
    let ⟨operand, s₂, h₂⟩ ← negation s₁
    return ⟨.negate operand ⟨sign.start, operand.span.stop⟩, s₂, by omega⟩
termination_by 16 * s.size + 3

/-- Reads a value and the indexes behind it. -/
def lookup (s : Stream) : Parse Expr s.size := do
  let ⟨value, s₁, h₁⟩ ← value s
  let ⟨e, s₂, h₂⟩ ← lookupTail value s₁
  return ⟨e, s₂, by omega⟩
termination_by 16 * s.size + 2

/-- Reads further indexes. -/
def lookupTail (table : Expr) (s : Stream) : Parse Expr (s.size + 1) :=
  match s.take? (.opening .square) with
  | none => return ⟨table, s, s.lt_succ⟩
  | some ⟨_, s₁, h₁⟩ => do
    let ⟨index, s₂, h₂⟩ ← expression s₁
    let ⟨stop, s₃, h₃⟩ ← s₂.expect (.closing .square)
    let ⟨e, s₄, h₄⟩ ← lookupTail (.index table index ⟨table.span.start, stop.stop⟩) s₃
    return ⟨e, s₄, by omega⟩
termination_by 16 * s.size

/-- Reads a single value. -/
def value (s : Stream) : Parse Expr s.size :=
  match s.next? with
  | some ⟨⟨.number text, span⟩, s₁, h₁⟩ =>
    if (Decimal.Number.parse? text.toList).isSome then return ⟨.number text span, s₁, h₁⟩
    else throw ⟨s.here, .badNumber text⟩
  | some ⟨⟨.literal content, span⟩, s₁, h₁⟩ => return ⟨.literal content span, s₁, h₁⟩
  | some ⟨⟨.identifier name, span⟩, s₁, h₁⟩ =>
    match s₁.next? with
    | some ⟨⟨.opening .round, _⟩, s₂, h₂⟩ => do
      let ⟨(args, stop), s₃, h₃⟩ ← arguments s₂
      return ⟨.call name args ⟨span.start, stop⟩, s₃, by omega⟩
    | some ⟨⟨.opening .brace, _⟩, s₂, h₂⟩ => do
      let ⟨(elements, stop), s₃, h₃⟩ ← elements s₂
      return ⟨.composite (some name) elements ⟨span.start, stop⟩, s₃, by omega⟩
    | _ => return ⟨.var name span, s₁, h₁⟩
  | some ⟨⟨.opening .round, span⟩, s₁, h₁⟩ => do
    let ⟨inner, s₂, h₂⟩ ← expression s₁
    let ⟨stop, s₃, h₃⟩ ← s₂.expect (.closing .round)
    return ⟨.paren inner ⟨span.start, stop.stop⟩, s₃, by omega⟩
  | some ⟨⟨.opening .brace, span⟩, s₁, h₁⟩ => do
    let ⟨(elements, stop), s₂, h₂⟩ ← elements s₁
    return ⟨.composite none elements ⟨span.start, stop⟩, s₂, by omega⟩
  | some ⟨⟨.opening .square, span⟩, s₁, h₁⟩ => do
    let ⟨(points, stop), s₂, h₂⟩ ← points s₁
    return ⟨.table points ⟨span.start, stop⟩, s₂, by omega⟩
  | _ => throw (s.unexpected .expression)
termination_by 16 * s.size + 1

/-- Reads the arguments of a call behind its opening bracket, and where the closing one ends. -/
def arguments (s : Stream) : Parse (List Expr × Pos) s.size :=
  match s.take? (.closing .round) with
  | some ⟨stop, s₁, h₁⟩ => return ⟨([], stop.stop), s₁, h₁⟩
  | none => argumentsFrom s
termination_by 16 * s.size + 8

/-- Reads one argument or more. -/
def argumentsFrom (s : Stream) : Parse (List Expr × Pos) s.size := do
  let ⟨arg, s₁, h₁⟩ ← expression s
  match s₁.next? with
  | some ⟨⟨.sign .comma, _⟩, s₂, h₂⟩ =>
    let ⟨(args, stop), s₃, h₃⟩ ← argumentsFrom s₂
    return ⟨(arg :: args, stop), s₃, by omega⟩
  | some ⟨⟨.closing .round, span⟩, s₂, h₂⟩ => return ⟨([arg], span.stop), s₂, by omega⟩
  | _ => throw (s₁.unexpected .argumentEnd)
termination_by 16 * s.size + 7

/-- Reads the elements of a structured value behind its opening brace, and where the closing one
ends. -/
def elements (s : Stream) : Parse (List Expr × Pos) s.size :=
  let ⟨_, s₁, h₁⟩ := s.dropTerminators
  match s₁.take? (.closing .brace) with
  | some ⟨stop, s₂, h₂⟩ => return ⟨([], stop.stop), s₂, by omega⟩
  | none => do
    let ⟨(key, keySpan), s₂, h₂⟩ ← s₁.identifier
    let ⟨_, s₃, h₃⟩ ← s₂.expect (.sign .colon)
    let ⟨value, s₄, h₄⟩ ← annotated s₃
    let ⟨_, s₅, h₅⟩ ← s₄.elementEnd
    let ⟨(more, stop), s₆, h₆⟩ ← elements s₅
    return ⟨(.keyed key value (keySpan.union value.span) :: more, stop), s₆, by omega⟩
termination_by 16 * s.size

/-- Reads the points of a table behind its opening bracket, and where the closing one ends. -/
def points (s : Stream) : Parse (List Expr × Pos) s.size :=
  let ⟨_, s₁, h₁⟩ := s.dropTerminators
  match s₁.take? (.closing .square) with
  | some ⟨stop, s₂, h₂⟩ => return ⟨([], stop.stop), s₂, by omega⟩
  | none => do
    let ⟨start, s₂, h₂⟩ ← s₁.expect (.opening .round)
    let ⟨x, s₃, h₃⟩ ← expression s₂
    let ⟨_, s₄, h₄⟩ ← s₃.expect (.sign .comma)
    let ⟨y, s₅, h₅⟩ ← expression s₄
    let ⟨stop, s₆, h₆⟩ ← s₅.expect (.closing .round)
    let ⟨_, s₇, h₇⟩ ← s₆.pointEnd
    let ⟨(more, stop'), s₈, h₈⟩ ← points s₇
    return ⟨(.pair x y ⟨start.start, stop.stop⟩ :: more, stop'), s₈, by omega⟩
termination_by 16 * s.size

end

end StockFlow.Stream
