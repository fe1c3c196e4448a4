import StockFlow.Decimal.Notation

/-!
# JSON

Values of JSON whose objects keep the order of their members, and how they are written.

* `Json.pretty` — over several lines, each level two spaces deeper
* `Json.compact` — without any space
-/

namespace StockFlow.Artifact

/-- A value of JSON. A number is a double; one that is not finite is written as `null`. -/
inductive Json where
  | null
  | bool (b : Bool)
  | number (x : Float)
  | text (s : String)
  | list (items : List Json)
  | object (members : List (String × Json))
  deriving Repr

namespace Json

/-- A character in quotes. -/
def escaped (c : Char) : List Char :=
  match c with
  | '"' => ['\\', '"']
  | '\\' => ['\\', '\\']
  | '\n' => ['\\', 'n']
  | '\r' => ['\\', 'r']
  | '\t' => ['\\', 't']
  | '\x08' => ['\\', 'b']
  | '\x0c' => ['\\', 'f']
  | _ =>
    if c.toNat < 32 then
      ['\\', 'u', '0', '0', Nat.digitChar (c.toNat / 16), Nat.digitChar (c.toNat % 16)]
    else [c]

/-- A text in quotes. -/
def quoted (s : String) : String := "\"" ++ String.ofList (s.toList.flatMap escaped) ++ "\""

/-- A number. -/
def numberText (x : Float) : String := (Decimal.artifact? x).getD "null"

/-- A truth value. -/
def boolText (b : Bool) : String := if b then "true" else "false"

/-- A line end and the space before what follows on a level. -/
def newline (level : Nat) : String := "\n" ++ String.ofList (List.replicate (2 * level) ' ')

/-- Items between brackets, each on a line of its own one level deeper. -/
def block (left right : String) (level : Nat) (items : List String) : String :=
  if items.isEmpty then left ++ right
  else
    left ++ newline (level + 1) ++ ("," ++ newline (level + 1)).intercalate items
      ++ newline level ++ right

mutual

/-- A value over several lines. -/
def prettyAt (level : Nat) : Json → String
  | null => "null"
  | bool b => boolText b
  | number x => numberText x
  | text s => quoted s
  | list items => block "[" "]" level (prettyItems (level + 1) items)
  | object members => block "\x7b" "\x7d" level (prettyMembers (level + 1) members)

/-- The items of a list over several lines. -/
def prettyItems (level : Nat) : List Json → List String
  | [] => []
  | j :: js => j.prettyAt level :: prettyItems level js

/-- The members of an object over several lines. -/
def prettyMembers (level : Nat) : List (String × Json) → List String
  | [] => []
  | (name, j) :: more => (quoted name ++ ": " ++ j.prettyAt level) :: prettyMembers level more

end

/-- A value over several lines. -/
def pretty (j : Json) : String := j.prettyAt 0

mutual

/-- A value without any space. -/
def compact : Json → String
  | null => "null"
  | bool b => boolText b
  | number x => numberText x
  | text s => quoted s
  | list items => "[" ++ ",".intercalate (compactItems items) ++ "]"
  | object members => "\x7b" ++ ",".intercalate (compactMembers members) ++ "\x7d"

/-- The items of a list without any space. -/
def compactItems : List Json → List String
  | [] => []
  | j :: js => j.compact :: compactItems js

/-- The members of an object without any space. -/
def compactMembers : List (String × Json) → List String
  | [] => []
  | (name, j) :: more => (quoted name ++ ":" ++ j.compact) :: compactMembers more

end

end Json

end StockFlow.Artifact
