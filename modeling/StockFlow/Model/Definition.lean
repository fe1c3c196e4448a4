import StockFlow.Graph.Path
import StockFlow.Model.Fault
import StockFlow.Tree.File

/-!
# Definitions

A model may start from the statements of a parent, which may have a parent itself. Its definition is
the whole list of its statements: those of the chain of its ancestors in order, each name in the
place where it first occurs and with the statement of the model nearest to it.

* `File.definitions` — the definitions of a file

## Termination

A chain of parents ends because no model may occur in it twice (`Graph.unvisited_cons_lt`).
-/

namespace StockFlow

/-- A model with all its statements. -/
structure Definition where
  name : String
  isInterface : Bool
  stmts : List Stmt
  span : Span
  deriving Repr, Inhabited, BEq

namespace Definition

/-- The name under which a model gives its time specification. -/
def timespecName : String := "timespec"

/-- The statements that introduce variables. -/
def varStmts (d : Definition) : List Stmt := d.stmts.filter fun s => s.name ≠ timespecName

/-- The statement of the time specification. -/
def timespecStmt? (d : Definition) : Option Stmt := d.stmts.find? fun s => s.name = timespecName

end Definition

/-- The first name of a list that stands in it before, or in `seen`. -/
def firstRepeated? (seen : List String) : List String → Option String
  | [] => none
  | n :: rest => if n ∈ seen then some n else firstRepeated? (n :: seen) rest

namespace Stmt

/-- Puts a statement in the place of the one of its name, or behind all others. -/
def putInto (s : Stmt) : List Stmt → List Stmt
  | [] => [s]
  | t :: ts => if t.name = s.name then s :: ts else t :: s.putInto ts

/-- The statements of a body on top of inherited ones. -/
def merge (inherited own : List Stmt) : List Stmt :=
  own.foldl (fun stmts s => s.putInto stmts) inherited

end Stmt

/-- The chain of a model's ancestors, the farthest first, and last the model itself. The models on
`path` wait for it. -/
def ModelDecl.chain (models : List ModelDecl) (path : List String) (m : ModelDecl)
    (_hm : m ∈ models) : Except ModelFault (List ModelDecl) :=
  if _hpath : m.name ∈ path then .error (.circularParents m.name path.reverse)
  else
    match m.parent with
    | none => .ok [m]
    | some (parentName, _) =>
      match hp : models.find? fun d => d.name = parentName with
      | none => .error (.unknownParent m.name parentName)
      | some parent => do
        let ancestors ← chain models (m.name :: path) parent (List.mem_of_find?_eq_some hp)
        return ancestors ++ [m]
termination_by Graph.unvisited (models.map ModelDecl.name) path
decreasing_by exact Graph.unvisited_cons_lt (List.mem_map_of_mem _hm) _hpath

/-- The statements of a chain of models. -/
def ModelDecl.inherit (chain : List ModelDecl) : Except ModelFault (List Stmt) :=
  chain.foldlM (fun inherited m =>
    match firstRepeated? [] (m.body.stmts.map Stmt.name) with
    | some name => .error (.repeatedStatement m.name name)
    | none => .ok (Stmt.merge inherited m.body.stmts)) []

/-- The definition of a model of a file. -/
def ModelDecl.definition (models : List ModelDecl) (isInterface : Bool) (m : ModelDecl)
    (hm : m ∈ models) : Except ModelFault Definition := do
  let stmts ← inherit (← m.chain models [] hm)
  return ⟨m.name, isInterface, stmts, m.span⟩

namespace File

/-- The models and interfaces of a file. -/
def models (file : File) : List ModelDecl := file.decls.filterMap Decl.modelDecl?

theorem mem_models {file : File} {d : Decl} {m : ModelDecl} (hd : d ∈ file.decls)
    (hm : d.modelDecl? = some m) : m ∈ file.models :=
  List.mem_filterMap.2 ⟨d, hd, hm⟩

/-- The definition that a declaration gives rise to, if it is one of a model. -/
def definition? (file : File) (d : Decl) (hd : d ∈ file.decls) :
    Except ModelFault (Option Definition) :=
  match hm : d.modelDecl? with
  | none => .ok none
  | some m => do
    return some (← m.definition file.models (d.keyword = .interface) (mem_models hd hm))

/-- **The definitions of a file,** in the order of its declarations. No name may be declared
twice. -/
def definitions (file : File) : Except ModelFault (List Definition) := do
  match firstRepeated? [] (file.decls.map Decl.name) with
  | some name => throw (.duplicateDeclaration name)
  | none =>
    let found ← file.decls.attach.mapM fun ⟨d, hd⟩ => file.definition? d hd
    return found.filterMap id

end File

end StockFlow
