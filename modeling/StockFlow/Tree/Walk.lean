import StockFlow.Tree.File

/-!
# Walking a tree

A walk enters each node of a tree before its children and leaves it behind them. A visitor is told
of this. On entering a node it says whether to go on into it or to pass over what is below it, or it
stops the whole walk.

* `Node.walkWith` — the walk of a tree with any visitor
* `Node.walk` — what a visitor sees that decides by the node
-/

namespace StockFlow

/-- A node of a tree. -/
inductive Node where
  | file (f : File)
  | decl (d : Decl)
  | stmt (s : Stmt)
  | expr (e : Expr)
  deriving Repr

/-- What a visitor sees. -/
inductive Visit where
  | enter (n : Node)
  | leave
  deriving Repr

/-! ## Walks with any visitor -/

section

variable {m : Type → Type} [Monad m] (visit : Visit → m Bool)

/-- A node with the walk of what is below it. A visitor that does not go on into the node is not
told that it is left. -/
def Node.around (n : Node) (below : m Unit) : m Unit := do
  if ← visit (.enter n) then
    below
    let _ ← visit .leave

mutual

/-- The walk of an expression. -/
def Expr.walkWith (e : Expr) : m Unit :=
  Node.around visit (.expr e) <|
    match e with
    | .var _ _ | .number _ _ | .literal _ _ => return
    | .composite _ es _ | .table es _ | .call _ es _ => walkAllWith es
    | .paren x _ | .negate x _ | .keyed _ x _ => walkWith x
    | .binary _ l r _ | .pair l r _ | .units l r _ | .index l r _ => do
      walkWith l
      walkWith r

/-- The walks of some expressions, one after the other. -/
def Expr.walkAllWith : List Expr → m Unit
  | [] => return
  | e :: es => do
    walkWith e
    walkAllWith es

end

/-- The walk of what may be there or not. -/
def Expr.walkIfWith : Option Expr → m Unit
  | some e => e.walkWith visit
  | none => return

/-- The walk of a statement: its units, then its value. -/
def Stmt.walkWith (s : Stmt) : m Unit :=
  Node.around visit (.stmt s) do
    Expr.walkIfWith visit s.decl.units
    Expr.walkIfWith visit s.value

/-- The walk of a declaration: its units, then its statements. -/
def Decl.walkWith (d : Decl) : m Unit :=
  Node.around visit (.decl d) <|
    match d with
    | .model m | .interface m => do
      Expr.walkIfWith visit m.units
      m.body.stmts.forM (Stmt.walkWith visit)
    | .kind k => Expr.walkIfWith visit k.units

/-- The walk of a file. -/
def File.walkWith (f : File) : m Unit :=
  Node.around visit (.file f) (f.decls.forM (Decl.walkWith visit))

/-- **The walk of a tree** with any visitor. -/
def Node.walkWith : Node → m Unit
  | file f => f.walkWith visit
  | decl d => d.walkWith visit
  | stmt s => s.walkWith visit
  | expr e => e.walkWith visit

end

/-! ## What is seen -/

variable {ε : Type}

/-- What a visitor decides on entering a node. -/
inductive Decision (ε : Type) where
  | enter
  | skip
  | stop (reason : ε)
  deriving DecidableEq, Repr

/-- The visits of a walk in order, and what stopped it if anything did. -/
structure Trace (ε : Type) where
  visits : List Visit
  failure : Option ε
  deriving Repr

/-- Decides by the node, and keeps what was seen, the last first. -/
def Decision.visit (visitor : Node → Decision ε) : Visit → ExceptT ε (StateM (List Visit)) Bool
  | .enter n => do
    modify (.enter n :: ·)
    match visitor n with
    | .enter => return true
    | .skip => return false
    | .stop reason => throw reason
  | .leave => do
    modify (.leave :: ·)
    return true

/-- **What a visitor sees of a tree** that decides by the node. -/
def Node.walk (visitor : Node → Decision ε) (n : Node) : Trace ε :=
  let (answer, seen) := (n.walkWith (Decision.visit visitor)).run.run []
  { visits := seen.reverse
    failure := match answer with
      | .ok _ => none
      | .error reason => some reason }

end StockFlow
