import StockFlow.Model.Definition
import StockFlow.Model.Fault
import StockFlow.Tree.Walk

/-!
# Names in a model

Every variable of a model has one statement, and every name that a statement refers to is a variable
or one of the two names that every model knows: the current time and the step. The names are found
by walking the statements one after the other.

* `NameWalk.see` — what a walk does with what it sees
* `Definition.scope` — the variables of a model, if its names are in order
-/

namespace StockFlow

/-- The variables of a model. -/
structure Scope where
  vars : List VarDecl
  /-- Whether some variable is declared and never given. -/
  isAbstract : Bool
  deriving Repr, Inhabited, BEq

/-- The names that every model knows. -/
def implicitNames : List String := ["time", "dt"]

namespace Scope

/-- The first variable of a name. -/
def find? (scope : Scope) (name : String) : Option VarDecl :=
  scope.vars.find? fun d => d.name = name

/-- Whether a name may be referred to. -/
def knows (scope : Scope) (name : String) : Bool :=
  (scope.find? name).isSome || name ∈ implicitNames

end Scope

/-- Where a walk is that looks names up. -/
structure NameWalk where
  /-- The variable whose statement is walked. -/
  current : Option String
  /-- How many nodes have been gone into and not been left. -/
  depth : Nat
  deriving DecidableEq, Repr

namespace NameWalk

/-- Outside of all statements. -/
def outside : NameWalk := ⟨none, 0⟩

/-- **What a walk does with what it sees.** It goes into every node, and stops at a name that is not
known. Leaving the outermost node leaves the statement. -/
def see (model : String) (scope : Scope) : Visit → StateT NameWalk (Except ModelFault) Bool
  | .enter n => do
    match n with
    | .stmt s => modify fun w => { w with current := some s.name }
    | .expr (.var name span) =>
      unless scope.knows name do
        throw (.atVariable model ((← get).current.getD "?") (.unknownVariable name span))
    | _ => pure ()
    modify fun w => { w with depth := w.depth + 1 }
    return true
  | .leave => do
    modify fun w => { w with depth := w.depth - 1 }
    if (← get).depth = 0 then
      modify fun w => { w with current := none }
    return true

end NameWalk

namespace Definition

/-- The variables of some statements behind those `declared` before. -/
def declare (model : String) (declared : List VarDecl) :
    List Stmt → Except ModelFault (List VarDecl)
  | [] => .ok declared
  | s :: rest =>
    if s.name ∈ implicitNames then .error (.reservedName model s.name)
    else
      match declared.find? fun d => d.name = s.name with
      | some first => .error (.redeclared model s.name first.span s.decl.span)
      | none => declare model (declared ++ [s.decl]) rest

/-- **The variables of a model.** Names have to be distinct and not implicit, and every reference
has to be known. -/
def scope (d : Definition) : Except ModelFault Scope := do
  let vars ← declare d.name [] d.varStmts
  let scope : Scope := ⟨vars, d.varStmts.any fun s => s.value.isNone⟩
  let _ ← (d.varStmts.forM (Stmt.walkWith (NameWalk.see d.name scope))).run .outside
  return scope

end Definition

end StockFlow
