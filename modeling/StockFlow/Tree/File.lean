import StockFlow.Token.Fault
import StockFlow.Tree.Expr

/-!
# Declarations and files

A file declares models, interfaces and kinds. A model is a list of statements, each of which
introduces a variable and perhaps says what it is equal to.
-/

namespace StockFlow

/-- A variable as a statement introduces it. -/
structure VarDecl where
  name : String
  /-- The kind written behind the name, as it is written. -/
  kind : Option (String × Span)
  units : Option Expr
  span : Span
  deriving Repr, Inhabited, BEq

/-- A statement of a model. One without a value declares a variable that is to be given later. -/
structure Stmt where
  decl : VarDecl
  value : Option Expr
  deriving Repr, Inhabited, BEq

namespace Stmt

/-- The name of the variable. -/
def name (s : Stmt) : String := s.decl.name

/-- Where a statement stands, without its terminator. -/
def span (s : Stmt) : Span :=
  match s.value with
  | none => s.decl.span
  | some value => s.decl.span.union value.span

end Stmt

/-- Statements between braces. -/
structure Body where
  stmts : List Stmt
  span : Span
  deriving Repr, Inhabited, BEq

/-- A model or interface. -/
structure ModelDecl where
  name : String
  /-- The model whose statements this one starts from. -/
  parent : Option (String × Span)
  units : Option Expr
  body : Body
  span : Span
  deriving Repr, Inhabited, BEq

/-- A kind of quantity. -/
structure KindDecl where
  name : String
  units : Option Expr
  span : Span
  deriving Repr, Inhabited, BEq

/-- A declaration of a file. An interface is a model that is only there to be started from. -/
inductive Decl where
  | model (m : ModelDecl)
  | interface (m : ModelDecl)
  | kind (k : KindDecl)
  deriving Repr, Inhabited, BEq

namespace Decl

/-- The declared name. -/
def name : Decl → String
  | model m | interface m => m.name
  | kind k => k.name

/-- Where a declaration stands. -/
def span : Decl → Span
  | model m | interface m => m.span
  | kind k => k.span

/-- The keyword of a declaration. -/
def keyword : Decl → Keyword
  | model _ => .model
  | interface _ => .interface
  | kind _ => .kind

/-- The model or interface declared, if it is one. -/
def modelDecl? : Decl → Option ModelDecl
  | model m | interface m => some m
  | kind _ => none

end Decl

/-- What a text declares, and the errors in it. -/
structure File where
  package : Option String
  imports : List String
  decls : List Decl
  errors : List SyntaxError
  deriving Repr, Inhabited, BEq

namespace File

/-- The first declaration of a name. -/
def declared? (file : File) (name : String) : Option Decl := file.decls.find? fun d => d.name = name

/-- The first model or interface of a name. -/
def model? (file : File) (name : String) : Option ModelDecl :=
  (file.decls.filterMap Decl.modelDecl?).find? fun m => m.name = name

/-- How many names a file declares. -/
def nameCount (file : File) : Nat := (file.decls.map Decl.name).eraseDups.length

end File

end StockFlow
