import StockFlow.Source.Position

/-!
# Showing a place in the source

A message about a place is shown as `file:line:column: error: message`, the line it concerns and a
caret under the column. Tabs are widened to eight spaces in the line and counted as eight columns
before the caret, so the caret stands under the character meant.
-/

namespace StockFlow.Snippet

/-- The lines of a text: a line ends with a newline, before which one carriage return is dropped.
A text that ends with a newline has no further line. -/
def lines (cs : List Char) : List (List Char) :=
  match cs with
  | [] => []
  | c :: rest =>
    if c = '\n' then [] :: lines rest
    else if c = '\r' && rest.head? = some '\n' then lines rest
    else
      match lines rest with
      | [] => [[c]]
      | line :: more => (c :: line) :: more

/-- The line with the number `n`, counted from 1; the empty line where there is none. -/
def line (text : String) (n : Nat) : List Char := (lines text.toList)[n - 1]?.getD []

/-- How many columns a character takes on the screen. -/
def width (c : Char) : Nat := if c = '\t' then 8 else 1

/-- A character as it is shown. -/
def shown (c : Char) : List Char := if c = '\t' then List.replicate 8 ' ' else [c]

/-- A shown character takes as many columns as its width says. -/
theorem length_shown (c : Char) : (shown c).length = width c := by
  unfold shown width
  split <;> simp

/-- How many columns a text takes on the screen. -/
def columns : List Char → Nat
  | [] => 0
  | c :: cs => width c + columns cs

/-- A shown text takes as many columns as its characters do. -/
theorem length_flatMap_shown (cs : List Char) : (cs.flatMap shown).length = columns cs := by
  induction cs with
  | nil => rfl
  | cons c cs ih => simp [columns, length_shown, ih]

/-- The columns before the caret. -/
def indent (line : List Char) (col : Nat) : Nat := columns (line.take (col - 1))

/-- The whole notice: where and what, the line, and the caret. -/
def render (pos : Pos) (message filename source : String) : String :=
  let text := line source pos.line
  s!"{filename}:{pos.line}:{pos.col}: error: {message}\n"
    ++ String.ofList (text.flatMap shown) ++ "\n"
    ++ String.ofList (List.replicate (indent text pos.col) ' ') ++ "^"

/-- The notice on one line, without the source. -/
def brief (pos : Pos) (message : String) : String := s!"{pos.line}:{pos.col}: {message}"

end StockFlow.Snippet
