/-!
# Built-in functions

The functions that a model may call. A call holds as many arguments as its function takes.

* `Builtin.ofName?` — the call of a function by its name, if the arguments fit
-/

namespace StockFlow

/-- Functions of one number. -/
inductive UnaryFn where
  | abs
  | arctan
  | cos
  | exp
  | ln
  | log10
  | sin
  | sqrt
  | tan
  deriving DecidableEq, Repr

/-- Functions of two numbers. -/
inductive BinaryFn where
  | max
  | min
  deriving DecidableEq, Repr

namespace UnaryFn

/-- How a function is written. -/
def name : UnaryFn → String
  | abs => "abs"
  | arctan => "arctan"
  | cos => "cos"
  | exp => "exp"
  | ln => "ln"
  | log10 => "log10"
  | sin => "sin"
  | sqrt => "sqrt"
  | tan => "tan"

/-- All functions of one number. -/
def all : List UnaryFn := [abs, arctan, cos, exp, ln, log10, sin, sqrt, tan]

/-- The function written so. -/
def ofName? (text : String) : Option UnaryFn := all.find? fun f => f.name = text

end UnaryFn

namespace BinaryFn

/-- How a function is written. -/
def name : BinaryFn → String
  | max => "max"
  | min => "min"

/-- All functions of two numbers. -/
def all : List BinaryFn := [max, min]

/-- The function written so. -/
def ofName? (text : String) : Option BinaryFn := all.find? fun f => f.name = text

end BinaryFn

/-- A call of a built-in function. -/
inductive Builtin (ε : Type) where
  | pi
  | unary (f : UnaryFn) (x : ε)
  | binary (f : BinaryFn) (x y : ε)
  deriving DecidableEq, Repr

namespace Builtin

/-- The name of the constant that is written like a call. -/
def piName : String := "pi"

/-- How many arguments the function of a name takes. -/
def arity? (name : String) : Option Nat :=
  if name = piName then some 0
  else if (UnaryFn.ofName? name).isSome then some 1
  else if (BinaryFn.ofName? name).isSome then some 2
  else none

/-- Whether a name is that of a function. -/
def isName (name : String) : Bool := (arity? name).isSome

variable {ε : Type}

/-- The call of a function by its name; `none` for another name or if the arguments do not fit. -/
def ofName? (name : String) : List ε → Option (Builtin ε)
  | [] => if name = piName then some .pi else none
  | [x] => (UnaryFn.ofName? name).map fun f => .unary f x
  | [x, y] => (BinaryFn.ofName? name).map fun f => .binary f x y
  | _ => none

/-- The name of the function called. -/
def name : Builtin ε → String
  | pi => piName
  | unary f _ => f.name
  | binary f _ _ => f.name

/-- The arguments, in order. -/
def args : Builtin ε → List ε
  | pi => []
  | unary _ x => [x]
  | binary _ x y => [x, y]

/-- A call is read back from its name and arguments. -/
theorem ofName?_name (c : Builtin ε) : ofName? c.name c.args = some c := by
  rcases c with _ | ⟨f, x⟩ | ⟨f, x, y⟩
  · rfl
  · have : UnaryFn.ofName? f.name = some f := by cases f <;> decide
    simp [ofName?, name, args, this]
  · have : BinaryFn.ofName? f.name = some f := by cases f <;> decide
    simp [ofName?, name, args, this]

end Builtin

end StockFlow
