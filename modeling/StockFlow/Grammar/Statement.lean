import StockFlow.Grammar.Expression
import StockFlow.Tree.File

/-!
# Reading the body of a model

A body is read statement by statement. A statement that cannot be read is passed over, and reading
goes on behind it, so that one reading finds as many errors as it can.

* `Stream.statement` — reads a statement
* `Stream.skipStatement` — passes over a statement that cannot be read
* `Stream.body` — reads statements up to the closing brace

## Termination

A statement that is read takes a token at least. One that is passed over does too
(`size_skipStatement_lt`): a body only starts a statement on a token at which no statement is given
up at once.
-/

namespace StockFlow.Stream

/-! ## Statements -/

/-- Takes the kind written behind the name of a variable. -/
def kind? (s : Stream) : Option (Parsed (String × Span) s.size) :=
  match s.next? with
  | some ⟨⟨.identifier name, span⟩, s₁, h⟩ => some ⟨(name, span), s₁, h⟩
  | some ⟨⟨.typeName name, span⟩, s₁, h⟩ => some ⟨(name, span), s₁, h⟩
  | _ => none

/-- Takes what may stand there or not. -/
def optional {α : Type} (s : Stream) (r : Option (Parsed α s.size)) :
    Parsed (Option α) (s.size + 1) :=
  match r with
  | some ⟨a, s₁, h⟩ => ⟨some a, s₁, lt_succ_of_lt h⟩
  | none => ⟨none, s, s.lt_succ⟩

/-- Reads a variable with its kind and units. -/
def varDecl (s : Stream) : Parse VarDecl s.size := do
  let ⟨(name, span), s₁, h₁⟩ ← s.identifier
  let ⟨kind, s₂, h₂⟩ := s₁.optional s₁.kind?
  let ⟨units, s₃, h₃⟩ := s₂.optional (s₂.units? false)
  have h := lt_of_le_of_lt h₂ h₁
  return ⟨⟨name, kind, units, ⟨span.start, s₃.last⟩⟩, s₃, lt_of_le_of_lt h₃ h⟩

/-- Reads the value of a variable, if one is given. -/
def assigned (s : Stream) : Parse (Option Expr) (s.size + 1) :=
  match s.take? (.sign .equals) with
  | none => return ⟨none, s, s.lt_succ⟩
  | some ⟨_, s₁, h₁⟩ => do
    let ⟨value, s₂, h₂⟩ ← s₁.annotated
    have h := lt_trans h₂ h₁
    return ⟨some value, s₂, lt_succ_of_lt h⟩

/-- Reads a statement with its terminator. -/
def statement (s : Stream) : Parse Stmt s.size := do
  let ⟨decl, s₁, h₁⟩ ← s.varDecl
  let ⟨value, s₂, h₂⟩ ← s₁.assigned
  let ⟨_, s₃, h₃⟩ ← s₂.terminator
  have h := lt_of_le_of_lt h₂ h₁
  return ⟨⟨decl, value⟩, s₃, lt_of_le_of_lt h₃ h⟩

/-! ## Passing over a statement -/

/-- Passes over the rest of a statement, `depth` brackets deep. It ends with a terminator outside
brackets, which is passed too, or before the closing brace of the body or a word that starts a
declaration. -/
def skipStatement (depth : Nat) (s : Stream) : Stream :=
  match s.next? with
  | none => s
  | some ⟨l, s₁, _⟩ =>
    match l.token with
    | .opening _ => skipStatement (depth + 1) s₁
    | .closing b => if b = .brace ∧ depth = 0 then s else skipStatement (depth - 1) s₁
    | .terminator => if depth = 0 then s₁ else skipStatement depth s₁
    | .keyword k => if k.startsDeclaration then s else skipStatement depth s₁
    | _ => skipStatement depth s₁
termination_by s.size

theorem size_skipStatement_le (depth : Nat) (s : Stream) :
    (s.skipStatement depth).size ≤ s.size := by
  fun_induction skipStatement depth s <;> omega

/-- Whether a body ends at this token, read or not. -/
def endsBody : Token → Bool
  | .closing b => b = .brace
  | t => t.startsDeclaration

/-- **Passing over a statement takes a token at least,** unless the body ends where it starts. -/
theorem size_skipStatement_lt {s : Stream} {r : Parsed Lexeme s.size}
    (hnext : s.next? = some r) (hends : endsBody r.value.token = false) :
    (s.skipStatement 0).size < s.size := by
  have hle := fun depth => size_skipStatement_le depth r.stream
  have hlt := r.lt
  rw [skipStatement, hnext]
  simp only
  split
  · have := hle 1
    simpa using Nat.lt_of_le_of_lt this hlt
  · next b hb =>
    have hbrace : ¬b = .brace := by simpa [endsBody, hb] using hends
    simpa [hbrace] using Nat.lt_of_le_of_lt (hle 0) hlt
  · simpa using hlt
  · next k hk =>
    have : k.startsDeclaration = false := by
      simpa [endsBody, Token.startsDeclaration, hk] using hends
    simpa [this] using Nat.lt_of_le_of_lt (hle 0) hlt
  · exact Nat.lt_of_le_of_lt (hle 0) hlt

/-! ## Bodies -/

/-- The statements of a body, the errors in it, and where it ends; nowhere if the text does before
it. -/
structure BodyRead (n : Nat) where
  stmts : List Stmt
  errors : List SyntaxError
  stop : Option Pos
  stream : Stream
  lt : stream.size < n

/-- Reads statements up to the closing brace. A word that starts a declaration ends the body too,
with an error. -/
def body (s : Stream) : BodyRead (s.size + 1) :=
  let ⟨_, s₀, h₀⟩ := s.dropTerminators
  match hnext : s₀.next? with
  | none => ⟨[], [s₀.unexpected (.token (.closing .brace))], none, s₀, h₀⟩
  | some r =>
    if r.value.token = .closing .brace then
      ⟨[], [], some r.value.span.stop, r.stream, by have := r.lt; omega⟩
    else if hends : endsBody r.value.token then
      ⟨[], [s₀.unexpected (.token (.closing .brace))], some s₀.last, s₀, h₀⟩
    else
      match s₀.statement with
      | .ok ⟨stmt, s₂, h₂⟩ =>
        let r := body s₂
        ⟨stmt :: r.stmts, r.errors, r.stop, r.stream, by have := r.lt; omega⟩
      | .error e =>
        have hskip := size_skipStatement_lt hnext (Bool.eq_false_iff.2 hends)
        let r := body (s₀.skipStatement 0)
        ⟨r.stmts, e :: r.errors, r.stop, r.stream, by have := r.lt; omega⟩
termination_by s.size

end StockFlow.Stream
