import StockFlow.Grammar.Statement
import StockFlow.Token.Scan

/-!
# Reading files

A file may name its package, then lists imports, then declarations. A declaration that cannot be
read is given up: the token at which reading stopped is passed over, and so is everything up to the
next word that starts a declaration.

* `File.parse` — the declarations of a text, and every error found in it

## Termination

A declaration that is read takes its first word, and one that is given up takes the token at which
it was stuck, so each round leaves fewer tokens.
-/

namespace StockFlow

/-- Where reading a declaration stopped, and why. -/
structure Stuck (n : Nat) where
  error : SyntaxError
  stream : Stream
  lt : stream.size < n

/-- Where reading stopped, seen from a stream before. -/
def Stuck.since {s t : Stream} (stuck : Stuck (t.size + 1)) (h : t.size < s.size) :
    Stuck (s.size + 1) where
  error := stuck.error
  stream := stuck.stream
  lt := Nat.lt_trans stuck.lt (Nat.succ_lt_succ h)

namespace Stream

/-- Reading stops at `s` if `r` is an error. -/
def orStuck {α : Type} {n : Nat} (s : Stream) (h : s.size < n) (r : Except SyntaxError α) :
    Except (Stuck n) α :=
  match r with
  | .ok a => .ok a
  | .error e => .error ⟨e, s, h⟩

/-! ## Giving up a declaration -/

/-- Passes over tokens up to a word that starts a declaration. -/
def toDeclaration (s : Stream) : Stream :=
  match s.next? with
  | none => s
  | some r => if r.value.token.startsDeclaration then s else toDeclaration r.stream
termination_by s.size
decreasing_by exact r.lt

/-- Passes over the token at which reading stopped, whatever it is, and on to the next word that
starts a declaration. -/
def giveUp (s : Stream) : Stream :=
  match s.next? with
  | none => s
  | some r => r.stream.toDeclaration

theorem size_toDeclaration_le (s : Stream) : s.toDeclaration.size ≤ s.size := by
  fun_induction toDeclaration s with
  | case1 => exact Nat.le_refl _
  | case2 => exact Nat.le_refl _
  | case3 s r _ _ ih => exact Nat.le_trans ih (Nat.le_of_lt r.lt)

theorem size_giveUp_le (s : Stream) : s.giveUp.size ≤ s.size := by
  unfold giveUp
  split
  · exact Nat.le_refl _
  · next r _ => exact Nat.le_trans (size_toDeclaration_le _) (Nat.le_of_lt r.lt)

/-! ## Package and imports -/

/-- Reads the name of the package behind its keyword. -/
def packageName (s : Stream) : Except (Stuck (s.size + 1)) (Parsed String s.size) := do
  let ⟨(name, _), s₁, h₁⟩ ← s.orStuck s.lt_succ s.identifier
  let ⟨_, s₂, h₂⟩ ← s₁.orStuck (lt_succ_of_lt h₁) s₁.terminator
  return ⟨name, s₂, lt_of_le_of_lt h₂ h₁⟩

/-- Takes the path of an import. -/
def path (s : Stream) : Parse String s.size :=
  match s.next? with
  | some ⟨⟨.literal path, _⟩, s₁, h⟩ => .ok ⟨path, s₁, h⟩
  | _ => .error (s.unexpected .importPath)

/-- Reads an import behind its keyword. -/
def importPath (s : Stream) : Except (Stuck (s.size + 1)) (Parsed String s.size) := do
  let ⟨path, s₁, h₁⟩ ← s.orStuck s.lt_succ s.path
  let ⟨_, s₂, h₂⟩ ← s₁.orStuck (lt_succ_of_lt h₁) s₁.terminator
  return ⟨path, s₂, lt_of_le_of_lt h₂ h₁⟩

/-- What was read of a part of a file: its items, the errors in it, and what is left. -/
structure Part (α : Type) where
  items : List α
  errors : List SyntaxError
  stream : Stream

/-- Reads the package, if one is named. -/
def package (s : Stream) : Part String :=
  let ⟨_, s₀, _⟩ := s.dropTerminators
  match s₀.take? (.keyword .package) with
  | none => ⟨[], [], s₀⟩
  | some ⟨_, s₁, _⟩ =>
    match s₁.packageName with
    | .ok ⟨name, s₂, _⟩ => ⟨[name], [], s₂⟩
    | .error stuck => ⟨[], [stuck.error], stuck.stream.giveUp⟩

/-- Reads imports as long as there are any. -/
def imports (s : Stream) : Part String :=
  let ⟨_, s₀, _h₀⟩ := s.dropTerminators
  match s₀.take? (.keyword .imports) with
  | none => ⟨[], [], s₀⟩
  | some ⟨_, s₁, _h₁⟩ =>
    match s₁.importPath with
    | .ok ⟨path, s₂, _h₂⟩ =>
      let r := imports s₂
      { r with items := path :: r.items }
    | .error stuck =>
      have _hle := size_giveUp_le stuck.stream
      have _hlt := stuck.lt
      let r := imports stuck.stream.giveUp
      { r with errors := stuck.error :: r.errors }
termination_by s.size

/-! ## Declarations -/

/-- What was read of a declaration: the declaration if it could be read, the errors in it, and what
is left. -/
structure DeclRead (n : Nat) where
  decl : Option Decl
  errors : List SyntaxError
  stream : Stream
  lt : stream.size < n

/-- A declaration that could not be read. -/
def DeclRead.ofStuck {n : Nat} (stuck : Stuck n) : DeclRead n :=
  ⟨none, [stuck.error], stuck.stream.giveUp,
    Nat.lt_of_le_of_lt (size_giveUp_le _) stuck.lt⟩

/-- Reads a kind behind its keyword, which starts at `start`. -/
def kindDecl (start : Pos) (s : Stream) :
    Except (Stuck (s.size + 1)) (Parsed KindDecl s.size) := do
  let ⟨(name, _), s₁, h₁⟩ ← s.orStuck s.lt_succ s.identifier
  let ⟨units, s₂, h₂⟩ := s₁.optional (s₁.units? true)
  have h := lt_of_le_of_lt h₂ h₁
  let ⟨_, s₃, h₃⟩ ← s₂.orStuck (lt_succ_of_lt h) s₂.terminator
  return ⟨⟨name, units, ⟨start, s₂.last⟩⟩, s₃, lt_of_le_of_lt h₃ h⟩

/-- Reads the parent of a model, if one is named. -/
def parent (s : Stream) :
    Except (Stuck (s.size + 1)) (Parsed (Option (String × Span)) (s.size + 1)) :=
  match s.take? (.keyword .specializes) with
  | none => .ok ⟨none, s, s.lt_succ⟩
  | some ⟨_, s₁, h₁⟩ => do
    let ⟨parent, s₂, h₂⟩ ← s₁.orStuck (lt_succ_of_lt h₁) s₁.identifier
    have h := lt_trans h₂ h₁
    return ⟨some parent, s₂, lt_succ_of_lt h⟩

/-- The first line of a model: all that stands before its statements. -/
structure ModelHead where
  name : String
  parent : Option (String × Span)
  units : Option Expr
  /-- Where the body starts. -/
  brace : Span

/-- Reads the first line of a model behind its keyword. -/
def modelHead (s : Stream) : Except (Stuck (s.size + 1)) (Parsed ModelHead s.size) := do
  let ⟨(name, _), s₁, h₁⟩ ← s.orStuck s.lt_succ s.identifier
  let ⟨parent, s₂, h₂⟩ ← s₁.parent.mapError fun stuck => stuck.since h₁
  let ⟨units, s₃, h₃⟩ := s₂.optional (s₂.units? true)
  have h := lt_of_le_of_lt h₂ h₁
  have h := lt_of_le_of_lt h₃ h
  let ⟨brace, s₄, h₄⟩ ← s₃.orStuck (lt_succ_of_lt h) (s₃.expect (.opening .brace))
  return ⟨⟨name, parent, units, brace⟩, s₄, lt_trans h₄ h⟩

/-- Reads a model behind its keyword, which starts at `start`. A body that does not end is an
error of the whole model. -/
def modelDecl (start : Pos) (make : ModelDecl → Decl) (s : Stream) : DeclRead (s.size + 1) :=
  match s.modelHead with
  | .error stuck => .ofStuck stuck
  | .ok ⟨head, s₁, h₁⟩ =>
    let b := s₁.body
    have hlt := b.lt
    match b.stop with
    | none => ⟨none, b.errors, b.stream, by omega⟩
    | some stop =>
      let model : ModelDecl :=
        ⟨head.name, head.parent, head.units, ⟨b.stmts, ⟨head.brace.start, stop⟩⟩, ⟨start, stop⟩⟩
      ⟨some (make model), b.errors, b.stream, by omega⟩

/-- Reads a declaration, of which `first` is the first token. -/
def declaration (s : Stream) (first : Parsed Lexeme s.size) : DeclRead s.size :=
  let start := first.value.span.start
  have hlt := first.lt
  let read : DeclRead (first.stream.size + 1) :=
    match first.value.token with
    | .keyword .model => first.stream.modelDecl start .model
    | .keyword .interface => first.stream.modelDecl start .interface
    | .keyword .kind =>
      match first.stream.kindDecl start with
      | .ok ⟨kind, s₁, h₁⟩ => ⟨some (.kind kind), [], s₁, by omega⟩
      | .error stuck => .ofStuck stuck
    | _ =>
      ⟨none, [s.unexpected .declaration], first.stream.toDeclaration,
        Nat.lt_succ_of_le (size_toDeclaration_le _)⟩
  ⟨read.decl, read.errors, read.stream, by have := read.lt; omega⟩

/-- Reads declarations to the end of the text. -/
def declarations (s : Stream) : List Decl × List SyntaxError :=
  let ⟨_, s₀, _h₀⟩ := s.dropTerminators
  match s₀.next? with
  | none => ([], [])
  | some first =>
    match s₀.declaration first with
    | ⟨decl, errors, s₁, _h₁⟩ =>
      let (decls, more) := declarations s₁
      (decl.toList ++ decls, errors ++ more)
termination_by s.size

end Stream

namespace File

/-- Reads a file from its tokens. -/
def ofStream (s : Stream) : File :=
  let package := s.package
  let imports := package.stream.imports
  let (decls, errors) := imports.stream.declarations
  { package := package.items.head?
    imports := imports.items
    decls := decls
    errors := package.errors ++ imports.errors ++ errors }

/-- The declarations of a text, and every error found in it. An error of the scanner is the only
one, and then nothing is declared. -/
def parse (text : String) : File :=
  let scan := Scan.ofText text
  match scan.error with
  | some e => { package := none, imports := [], decls := [], errors := [e] }
  | none => ofStream ⟨scan.lexemes, Pos.start, Pos.ofEnd text⟩

end File

end StockFlow
