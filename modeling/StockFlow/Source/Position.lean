/-!
# Positions and spans

A position is a point of the source text: its offset in bytes, its line and its column, both
counted from 1. A span is the stretch between two positions.

Positions are only ever obtained by stepping over characters (`Pos.after`), so the three numbers
always agree with the text read so far.

* `Pos.offset_afterAll` — stepping over a text adds its size in bytes
-/

namespace StockFlow

/-- A point of the source text. -/
structure Pos where
  /-- Bytes before the point. -/
  offset : Nat
  /-- One more than the number of line ends before the point. -/
  line : Nat
  /-- One more than the number of characters since the last line end. -/
  col : Nat
  deriving DecidableEq, Repr, Inhabited

namespace Pos

/-- The position before the first character. -/
def start : Pos := ⟨0, 1, 1⟩

/-- The position behind the character `c` that stands at `p`. -/
def after (p : Pos) (c : Char) : Pos :=
  if c = '\n' then ⟨p.offset + c.utf8Size, p.line + 1, 1⟩
  else ⟨p.offset + c.utf8Size, p.line, p.col + 1⟩

/-- The position behind all of `cs`. -/
def afterAll (p : Pos) (cs : List Char) : Pos := cs.foldl after p

@[simp] theorem afterAll_nil (p : Pos) : p.afterAll [] = p := rfl

@[simp] theorem afterAll_cons (p : Pos) (c : Char) (cs : List Char) :
    p.afterAll (c :: cs) = (p.after c).afterAll cs := rfl

theorem afterAll_append (p : Pos) (cs ds : List Char) :
    p.afterAll (cs ++ ds) = (p.afterAll cs).afterAll ds := by
  simp [afterAll]

/-- The position `bytes` further on the same line, where each byte is one character. -/
def shift (p : Pos) (bytes : Nat) : Pos := ⟨p.offset + bytes, p.line, p.col + bytes⟩

/-- The position behind the last character of a text. -/
def ofEnd (text : String) : Pos := start.afterAll text.toList

/-- Positions are shown as line and column. -/
def render (p : Pos) : String := s!"{p.line}:{p.col}"

instance : ToString Pos := ⟨render⟩

end Pos

/-- The size of a text in bytes. -/
def byteCount : List Char → Nat
  | [] => 0
  | c :: cs => c.utf8Size + byteCount cs

@[simp] theorem byteCount_nil : byteCount [] = 0 := rfl

@[simp] theorem byteCount_cons (c : Char) (cs : List Char) :
    byteCount (c :: cs) = c.utf8Size + byteCount cs := rfl

namespace Pos

@[simp] theorem offset_after (p : Pos) (c : Char) : (p.after c).offset = p.offset + c.utf8Size := by
  unfold after
  split <;> rfl

/-- **Stepping over a text adds its size in bytes.** -/
theorem offset_afterAll (p : Pos) (cs : List Char) :
    (p.afterAll cs).offset = p.offset + byteCount cs := by
  induction cs generalizing p with
  | nil => simp
  | cons c cs ih => simp [ih, Nat.add_assoc]

end Pos

/-- A stretch of the source: from the first character of its first token to behind its last. -/
structure Span where
  start : Pos
  stop : Pos
  deriving DecidableEq, Repr, Inhabited

namespace Span

/-- The smallest stretch that holds both, judged by offsets; on a tie the first one's ends stay. -/
def union (a b : Span) : Span where
  start := if a.start.offset ≤ b.start.offset then a.start else b.start
  stop := if b.stop.offset ≤ a.stop.offset then a.stop else b.stop

/-- A span is shown by where it starts. -/
def render (s : Span) : String := s.start.render

instance : ToString Span := ⟨render⟩

end Span

end StockFlow
