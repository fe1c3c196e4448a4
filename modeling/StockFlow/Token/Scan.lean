import StockFlow.Text.Blank
import StockFlow.Text.Digit
import StockFlow.Text.Identifier
import StockFlow.Token.Fault

/-!
# From text to tokens

The scanner reads a text from left to right. White space and comments stand between tokens. Where a
line ends, or the text does, behind a token that ends a value, a terminator is put in.

* `Scan.ofText` — the tokens of a text, and the error that stopped it

## Termination

Each step leaves fewer characters than it was given (`step_leavesLess`).
-/

namespace StockFlow

/-- A place in a text: what is still to be read, and where that starts. -/
structure Cursor where
  rest : List Char
  pos : Pos
  deriving DecidableEq, Repr

namespace Cursor

/-- The place before the first character of a text. -/
def ofText (text : String) : Cursor := ⟨text.toList, Pos.start⟩

/-- The place `n` characters further, or the end. -/
def drop (cur : Cursor) (n : Nat) : Cursor := ⟨cur.rest.drop n, cur.pos.afterAll (cur.rest.take n)⟩

/-- The place behind the characters that satisfy `p`. -/
def dropWhile (cur : Cursor) (p : Char → Bool) : Cursor :=
  ⟨cur.rest.dropWhile p, cur.pos.afterAll (cur.rest.takeWhile p)⟩

@[simp] theorem rest_drop (cur : Cursor) (n : Nat) : (cur.drop n).rest = cur.rest.drop n := rfl

@[simp] theorem rest_dropWhile (cur : Cursor) (p : Char → Bool) :
    (cur.dropWhile p).rest = cur.rest.dropWhile p := rfl

end Cursor

/-- What stands at the start of a text. -/
inductive ScanStep where
  | lexeme (l : Lexeme) (next : Cursor)
  /-- Something between tokens. -/
  | gap (next : Cursor)
  | error (e : SyntaxError)

/-- A step leaves fewer than `n` characters, or is the last. -/
def ScanStep.LeavesLess (n : Nat) : ScanStep → Prop
  | .lexeme _ next | .gap next => next.rest.length < n
  | .error _ => True

namespace Scan

/-! ## Single tokens -/

/-- The token that a single character makes on its own. -/
def single? : Char → Option Token
  | '=' => some (.sign .equals)
  | '^' => some (.sign .caret)
  | '-' => some (.sign .minus)
  | '+' => some (.sign .plus)
  | '*' => some (.sign .star)
  | ':' => some (.sign .colon)
  | ',' => some (.sign .comma)
  | ';' => some .terminator
  | '(' => some (.opening .round)
  | ')' => some (.closing .round)
  | '\x7b' => some (.opening .brace)
  | '\x7d' => some (.closing .brace)
  | '[' => some (.opening .square)
  | ']' => some (.closing .square)
  | _ => none

/-- A word is a keyword if it is spelled like one, and else an identifier. -/
def wordToken (word : String) : Token :=
  match Keyword.ofSpelling? word with
  | some k => .keyword k
  | none => .identifier word

/-- The word at the cursor. -/
def word (cur : Cursor) : ScanStep :=
  let next := cur.dropWhile Text.continuesIdentifier
  let spelling := String.ofList (cur.rest.takeWhile Text.continuesIdentifier)
  .lexeme ⟨wordToken spelling, cur.pos, next.pos⟩ next

/-- A text in quotes, which has to end on its line. The cursor stands on the opening quote. -/
def quoted (cur : Cursor) (quote : Char) (make : String → Token) (fault : SyntaxFault) : ScanStep :=
  let inside : Char → Bool := fun c => !(c = quote || c = '\n')
  let body := cur.drop 1
  let stop := body.dropWhile inside
  if stop.rest.head? = some quote then
    let next := stop.drop 1
    .lexeme ⟨make (String.ofList (body.rest.takeWhile inside)), cur.pos, next.pos⟩ next
  else .error ⟨cur.pos, fault⟩

/-! ## Numbers -/

/-- The length of an exponent at the start of a text: a mark, perhaps a sign, and digits. -/
def exponentLength : List Char → Nat
  | e :: rest =>
    if e = 'e' || e = 'E' then
      let sign := match rest with
        | s :: _ => if s = '-' || s = '+' then 1 else 0
        | [] => 0
      let digits := ((rest.drop sign).takeWhile Text.isDecimalDigit).length
      if digits = 0 then 0 else 1 + sign + digits
    else 0
  | [] => 0

/-- The length of the digits at the start of a text. -/
def digitLength (cs : List Char) : Nat := (cs.takeWhile Text.isDecimalDigit).length

/-- The length of a fraction at the start of a text: a point and digits, perhaps none. -/
def fractionLength : List Char → Nat
  | '.' :: rest => 1 + digitLength rest
  | _ => 0

/-- The length of the numeral at the start of a text. Digits of every script are taken. -/
def numeralLength (cs : List Char) : Nat :=
  let whole := digitLength cs
  let fraction := fractionLength (cs.drop whole)
  whole + fraction + exponentLength (cs.drop (whole + fraction))

/-- The numeral at the cursor. Its size is counted in bytes, and that many characters are passed
over; behind digits that are not ASCII the characters that follow are lost. If a line end is lost,
the numeral counts as standing at the start of the line reached. -/
def number (cur : Cursor) : ScanStep :=
  let text := cur.rest.take (numeralLength cur.rest)
  let size := byteCount text
  let next := cur.drop size
  let stop := cur.pos.afterAll text
  let span : Span :=
    if next.pos.line = cur.pos.line then ⟨cur.pos, stop⟩
    else
      ⟨⟨cur.pos.offset, next.pos.line, 1⟩, ⟨stop.offset, next.pos.line, 1⟩⟩
  .lexeme ⟨.number (String.ofList text), span⟩ next

/-- Whether a number starts with these characters. -/
def startsNumber (c : Char) (rest : List Char) : Bool :=
  c.isDigit || (c = '.' && rest.head?.any Char.isDigit)

/-! ## Comments -/

/-- The end of a block comment, and the first line end in it. -/
structure CommentEnd where
  next : Cursor
  newline : Option Span

/-- Looks for the end of a block comment from inside it, where `newline` is the first line end so
far. -/
def commentEnd? (newline : Option Span) : List Char → Pos → Option CommentEnd
  | [], _ => none
  | '*' :: '/' :: rest, pos => some ⟨⟨rest, (pos.after '*').after '/'⟩, newline⟩
  | c :: rest, pos =>
    let here : Option Span := if c = '\n' then some ⟨pos, pos.shift 1⟩ else none
    commentEnd? (newline <|> here) rest (pos.after c)

/-- A block comment. One that holds a line end ends a statement like a line end, if one may end
here. -/
def blockComment (ended : Bool) (cur : Cursor) : ScanStep :=
  let body := cur.drop 2
  match commentEnd? none body.rest body.pos with
  | none => .error ⟨cur.pos, .openComment⟩
  | some ⟨next, some newline⟩ =>
    if ended then .lexeme ⟨.terminator, newline⟩ next else .gap next
  | some ⟨next, none⟩ => .gap next

/-! ## One step -/

/-- A line end, which ends a statement if one may end here. -/
def lineEnd (ended : Bool) (cur : Cursor) : ScanStep :=
  if ended then .lexeme ⟨.terminator, cur.pos, cur.pos.shift 1⟩ (cur.drop 1) else .gap (cur.drop 1)

/-- A slash starts a comment or is the sign of division. -/
def slash (ended : Bool) (cur : Cursor) : ScanStep :=
  match cur.rest.drop 1 with
  | '/' :: _ => .gap (cur.dropWhile (· ≠ '\n'))
  | '*' :: _ => blockComment ended cur
  | _ => .lexeme ⟨.sign .slash, cur.pos, cur.pos.shift 1⟩ (cur.drop 1)

/-- What stands at the cursor, which is on the character `c` followed by `rest`. -/
def step (ended : Bool) (pos : Pos) (c : Char) (rest : List Char) : ScanStep :=
  let cur : Cursor := ⟨c :: rest, pos⟩
  if c = '\n' then lineEnd ended cur
  else if c = '/' then slash ended cur
  else if c = '"' then quoted cur '"' .literal .openLiteral
  else if c = '\x60' then quoted cur '\x60' .typeName .openTypeName
  else if Text.startsIdentifier c then word cur
  else if startsNumber c rest then number cur
  else if Text.isBlank c then .gap (cur.drop 1)
  else
    match single? c with
    | some t => .lexeme ⟨t, pos, pos.shift 1⟩ (cur.drop 1)
    | none => .error ⟨pos, .unknownChar c⟩

/-! ## Each step leaves less -/

theorem length_dropWhile_le (p : Char → Bool) (cs : List Char) :
    (cs.dropWhile p).length ≤ cs.length := by
  induction cs with
  | nil => simp
  | cons c cs ih =>
    rw [List.dropWhile_cons]
    split
    · exact Nat.le_succ_of_le ih
    · exact Nat.le_refl _

theorem length_commentEnd?_le {newline : Option Span} {cs : List Char} {pos : Pos} {r : CommentEnd}
    (h : commentEnd? newline cs pos = some r) : r.next.rest.length ≤ cs.length := by
  fun_induction commentEnd? newline cs pos with
  | case1 => simp at h
  | case2 newline rest pos =>
    simp only [Option.some.injEq] at h
    subst h
    simp only [List.length_cons]
    omega
  | case3 newline pos c rest _ here ih =>
    have := ih h
    simp only [List.length_cons]
    omega

theorem byteCount_le (cs : List Char) : cs.length ≤ byteCount cs := by
  induction cs with
  | nil => simp
  | cons c cs ih =>
    have := c.utf8Size_pos
    simp only [List.length_cons, byteCount_cons]
    omega

theorem numeralLength_pos {c : Char} {rest : List Char} (h : startsNumber c rest = true) :
    0 < numeralLength (c :: rest) := by
  simp only [startsNumber, Bool.or_eq_true, Bool.and_eq_true, decide_eq_true_eq] at h
  rcases h with h | ⟨rfl, h⟩
  · have := Text.isDecimalDigit_of_isDigit h
    simp only [numeralLength, digitLength, List.takeWhile_cons, this, ↓reduceIte, List.length_cons]
    omega
  · have : Text.isDecimalDigit '.' = false := by decide
    simp only [numeralLength, digitLength, List.takeWhile_cons, this, Bool.false_eq_true,
      ↓reduceIte, List.length_nil, List.drop_zero, fractionLength]
    omega

theorem word_leavesLess {pos : Pos} {c : Char} {rest : List Char}
    (h : Text.startsIdentifier c = true) :
    (word ⟨c :: rest, pos⟩).LeavesLess (c :: rest).length := by
  have := length_dropWhile_le Text.continuesIdentifier rest
  simp only [word, ScanStep.LeavesLess, Cursor.rest_dropWhile, List.dropWhile_cons,
    Text.continues_of_starts h, ↓reduceIte, List.length_cons]
  omega

theorem quoted_leavesLess {pos : Pos} {c quote : Char} {rest : List Char} {make : String → Token}
    {fault : SyntaxFault} :
    (quoted ⟨c :: rest, pos⟩ quote make fault).LeavesLess (c :: rest).length := by
  have := length_dropWhile_le (fun c => !(c = quote || c = '\n')) rest
  unfold quoted
  simp only
  split
  · simp only [ScanStep.LeavesLess, Cursor.rest_drop, Cursor.rest_dropWhile, List.length_drop,
      List.drop_succ_cons, List.drop_zero, List.length_cons]
    omega
  · trivial

theorem number_leavesLess {pos : Pos} {c : Char} {rest : List Char}
    (h : startsNumber c rest = true) :
    (number ⟨c :: rest, pos⟩).LeavesLess (c :: rest).length := by
  have hpos := numeralLength_pos h
  have hle := byteCount_le ((c :: rest).take (numeralLength (c :: rest)))
  rw [List.length_take] at hle
  simp only [number, ScanStep.LeavesLess, Cursor.rest_drop, List.length_drop]
  simp only [List.length_cons] at hle ⊢
  omega

theorem blockComment_leavesLess {ended : Bool} {pos : Pos} {c : Char} {rest : List Char} :
    (blockComment ended ⟨c :: rest, pos⟩).LeavesLess (c :: rest).length := by
  unfold blockComment
  have hdrop : ((Cursor.mk (c :: rest) pos).drop 2).rest.length ≤ rest.length := by
    simp only [Cursor.rest_drop, List.length_drop, List.length_cons]
    omega
  simp only
  split
  · trivial
  · next h =>
    have := Nat.lt_succ_of_le (Nat.le_trans (length_commentEnd?_le h) hdrop)
    split <;> exact this
  · next h => exact Nat.lt_succ_of_le (Nat.le_trans (length_commentEnd?_le h) hdrop)

theorem slash_leavesLess {ended : Bool} {pos : Pos} {rest : List Char} :
    (slash ended ⟨'/' :: rest, pos⟩).LeavesLess ('/' :: rest).length := by
  unfold slash
  split
  · have := length_dropWhile_le (· ≠ '\n') rest
    simp only [ScanStep.LeavesLess, Cursor.rest_dropWhile, List.dropWhile_cons]
    simp only [ne_eq, Char.reduceEq, not_false_eq_true, decide_true, ↓reduceIte, List.length_cons]
    simp only [ne_eq] at this
    omega
  · exact blockComment_leavesLess
  · simp [ScanStep.LeavesLess]

/-- **Each step leaves fewer characters than it was given.** -/
theorem step_leavesLess {ended : Bool} {pos : Pos} {c : Char} {rest : List Char} :
    (step ended pos c rest).LeavesLess (c :: rest).length := by
  unfold step
  simp only
  split
  · unfold lineEnd
    split <;> simp [ScanStep.LeavesLess]
  split
  · next h => subst h; exact slash_leavesLess
  split
  · exact quoted_leavesLess
  split
  · exact quoted_leavesLess
  split
  · next h => exact word_leavesLess h
  split
  · next h => exact number_leavesLess h
  split
  · simp [ScanStep.LeavesLess]
  · split <;> simp [ScanStep.LeavesLess]

/-! ## All tokens -/

end Scan

/-- The tokens of a text, and what stopped the scanner if anything did. -/
structure Scan where
  lexemes : List Lexeme
  error : Option SyntaxError
  deriving DecidableEq, Repr

namespace Scan

/-- Puts a token in front. -/
def cons (l : Lexeme) (s : Scan) : Scan := ⟨l :: s.lexemes, s.error⟩

/-- The tokens from a place on, where `ended` says whether a statement may end there. -/
def scanFrom (ended : Bool) (cur : Cursor) : Scan :=
  match cur with
  | ⟨[], pos⟩ => if ended then ⟨[⟨.terminator, pos, pos⟩], none⟩ else ⟨[], none⟩
  | ⟨c :: rest, pos⟩ =>
    match _h : step ended pos c rest with
    | .lexeme l next => cons l (scanFrom l.token.endsValue next)
    | .gap next => scanFrom ended next
    | .error e => ⟨[], some e⟩
termination_by cur.rest.length
decreasing_by
  all_goals
    have := @step_leavesLess ended pos c rest
    rw [_h] at this
    exact this

/-- The tokens of a text. An error of the scanner ends them. -/
def ofText (text : String) : Scan := scanFrom false (Cursor.ofText text)

end Scan

end StockFlow
