import StockFlow.Token.Fault

/-!
# Reading tokens

A stream is the rest of a row of tokens. Reading something from a stream gives it together with a
stream that is shorter, and the result says so (`Parsed`), so that what reads on from there is
known to end.
-/

namespace StockFlow

/-- The tokens still to be read. -/
structure Stream where
  rest : List Lexeme
  /-- Behind the last token that was read. -/
  last : Pos
  /-- Behind the last character of the text. -/
  stop : Pos
  deriving DecidableEq, Repr

/-- How many tokens are left. -/
def Stream.size (s : Stream) : Nat := s.rest.length

namespace Stream

/-! ## How much is left

What is left after reading on is compared by these rules, from one stream to the next. -/

theorem lt_succ (s : Stream) : s.size < s.size + 1 := Nat.lt_succ_self _

theorem lt_succ_of_lt {s t : Stream} (h : s.size < t.size) : s.size < t.size + 1 :=
  Nat.lt_succ_of_lt h

theorem lt_trans {s t u : Stream} (h : s.size < t.size) (h' : t.size < u.size) : s.size < u.size :=
  Nat.lt_trans h h'

theorem lt_of_le_of_lt {s t u : Stream} (h : s.size < t.size + 1) (h' : t.size < u.size) :
    s.size < u.size :=
  Nat.lt_of_le_of_lt (Nat.le_of_lt_succ h) h'

theorem lt_of_lt_of_le {s t u : Stream} (h : s.size < t.size) (h' : t.size < u.size + 1) :
    s.size < u.size :=
  Nat.lt_of_lt_of_le h (Nat.le_of_lt_succ h')

end Stream

/-- Something read from a stream, with fewer than `n` tokens left. -/
structure Parsed (α : Type) (n : Nat) where
  value : α
  stream : Stream
  lt : stream.size < n

/-- Reads from a stream of `n - 1` tokens at most, or says what is wrong. -/
abbrev Parse (α : Type) (n : Nat) := Except SyntaxError (Parsed α n)

namespace Stream

/-- The next token. -/
def token? (s : Stream) : Option Token := s.rest.head?.map Lexeme.token

/-- Where the next token starts, or the text ends. -/
def here (s : Stream) : Pos :=
  match s.rest with
  | [] => s.stop
  | l :: _ => l.span.start

/-- Takes the next token. -/
def next? (s : Stream) : Option (Parsed Lexeme s.size) :=
  match h : s.rest with
  | [] => none
  | l :: more => some ⟨l, { s with rest := more, last := l.span.stop }, by simp [size, h]⟩

/-- Takes the next token if it is `t`. -/
def take? (s : Stream) (t : Token) : Option (Parsed Span s.size) :=
  match s.next? with
  | some ⟨l, s₁, h⟩ => if l.token = t then some ⟨l.span, s₁, h⟩ else none
  | none => none

/-- Passes over tokens as long as they are terminators. -/
def dropTerminators (s : Stream) : Parsed Unit (s.size + 1) :=
  match h : s.rest with
  | ⟨.terminator, span⟩ :: more =>
    let ⟨_, s₁, h₁⟩ := dropTerminators { s with rest := more, last := span.stop }
    ⟨(), s₁, by simp only [size, h, List.length_cons] at h₁ ⊢; omega⟩
  | _ => ⟨(), s, s.lt_succ⟩
termination_by s.size
decreasing_by simp [size, h]

/-! ## What is wrong here -/

/-- Something else was looked for where the stream stands. -/
def unexpected (s : Stream) (wanted : Wanted) : SyntaxError :=
  match s.token? with
  | some t => ⟨s.here, .unexpected wanted t⟩
  | none => ⟨s.here, .endOfFile wanted⟩

/-- Takes the token `t`. -/
def expect (s : Stream) (t : Token) : Parse Span s.size :=
  match s.take? t with
  | some r => .ok r
  | none => .error (s.unexpected (.token t))

/-- Takes an identifier. -/
def identifier (s : Stream) : Parse (String × Span) s.size :=
  match s.next? with
  | some ⟨⟨.identifier name, span⟩, s₁, h⟩ => .ok ⟨(name, span), s₁, h⟩
  | some ⟨l, _, _⟩ => .error ⟨s.here, .noIdentifier l.token⟩
  | none => .error ⟨s.here, .endOfFile .identifier⟩

/-- Takes a terminator. None is needed before a closing brace or the end of the text. -/
def terminator (s : Stream) : Parse Unit (s.size + 1) :=
  match s.next? with
  | some ⟨⟨.terminator, _⟩, s₁, h⟩ => .ok ⟨(), s₁, lt_succ_of_lt h⟩
  | some ⟨⟨.closing .brace, _⟩, _, _⟩ | none => .ok ⟨(), s, s.lt_succ⟩
  | some ⟨l, _, _⟩ => .error ⟨s.here, .noTerminator l.token⟩

end Stream

end StockFlow
