import StockFlow.Engine.Fault
import StockFlow.Model.Fault
import StockFlow.Tree.File

/-!
# Failures

A failure is the answer of anything that can go wrong beyond a single text: its cause, with a short
name and a message, shown as `Kind{code: message}`.
-/

namespace StockFlow

/-- Why something was refused. -/
inductive Failure where
  /-- A place of the text cannot be read. -/
  | atPlace (e : SyntaxError)
  /-- The text cannot be read: it has `count` errors. -/
  | unreadable (count : Nat) (first : SyntaxError)
  | model (fault : ModelFault)
  | run (fault : RunFault)
  deriving Repr

namespace Failure

/-- Which part of the work refused. -/
def kind : Failure → String
  | atPlace _ | unreadable _ _ => "SyntaxError"
  | model _ => "ModelError"
  | run _ => "SimulationError"

/-- The short name of the cause. -/
def code : Failure → String
  | atPlace e | unreadable _ e => e.fault.code
  | model fault => fault.code
  | run fault => fault.code

/-- What is said about the cause. -/
def message : Failure → String
  | atPlace e => e.brief
  | unreadable count first => s!"{count} syntax error(s), first at {first.brief}"
  | model fault => fault.message
  | run fault => fault.message

/-- How a failure is shown. -/
def render (f : Failure) : String := f.kind ++ "\x7b" ++ f.code ++ ": " ++ f.message ++ "\x7d"

instance : ToString Failure := ⟨render⟩

end Failure

/-- A text with errors is refused. -/
def File.unreadable? (file : File) : Option Failure :=
  file.errors.head?.map (.unreadable file.errors.length)

end StockFlow
