import StockFlow.Source.Position

/-!
# Tokens

The words of a model text. Statements end at a terminator, which is written as `;` or put in by the
scanner where a line ends behind a token that ends a value.
-/

namespace StockFlow

/-- Words with a fixed meaning. -/
inductive Keyword where
  | package
  | imports
  | kind
  | model
  | interface
  | specializes
  deriving DecidableEq, Repr

namespace Keyword

/-- How a keyword is written. -/
def spelling : Keyword → String
  | package => "package"
  | imports => "import"
  | kind => "kind"
  | model => "model"
  | interface => "interface"
  | specializes => "specializes"

/-- All keywords. -/
def all : List Keyword := [package, imports, kind, model, interface, specializes]

/-- The keyword written so. -/
def ofSpelling? (word : String) : Option Keyword := all.find? fun k => k.spelling = word

/-- Whether a declaration of a file starts with this keyword. -/
def startsDeclaration : Keyword → Bool
  | model | interface | kind => true
  | package | imports | specializes => false

/-- A keyword is read back from its spelling. -/
theorem ofSpelling?_spelling (k : Keyword) : ofSpelling? k.spelling = some k := by
  cases k <;> decide

end Keyword

/-- The three kinds of brackets. -/
inductive Bracket where
  | round
  | brace
  | square
  deriving DecidableEq, Repr

namespace Bracket

/-- The character that opens a bracket. -/
def left : Bracket → Char
  | round => '('
  | brace => '\x7b'
  | square => '['

/-- The character that closes a bracket. -/
def right : Bracket → Char
  | round => ')'
  | brace => '\x7d'
  | square => ']'

end Bracket

/-- Operators and separators. -/
inductive Sign where
  | plus
  | minus
  | star
  | slash
  | caret
  | equals
  | comma
  | colon
  deriving DecidableEq, Repr

namespace Sign

/-- How a sign is written. -/
def char : Sign → Char
  | plus => '+'
  | minus => '-'
  | star => '*'
  | slash => '/'
  | caret => '^'
  | equals => '='
  | comma => ','
  | colon => ':'

end Sign

/-- A word of a model text. -/
inductive Token where
  | keyword (k : Keyword)
  | sign (s : Sign)
  | opening (b : Bracket)
  | closing (b : Bracket)
  /-- The end of a statement. -/
  | terminator
  | identifier (name : String)
  /-- A numeral as it is written. -/
  | number (text : String)
  /-- A text in double quotes, without them. -/
  | literal (content : String)
  /-- A name in backticks, without them. -/
  | typeName (content : String)
  deriving DecidableEq, Repr

namespace Token

/-- Whether a value may end with this token, so that a line end behind it ends the statement. -/
def endsValue : Token → Bool
  | identifier _ | number _ | literal _ | typeName _ | closing _ => true
  | keyword _ | sign _ | opening _ | terminator => false

/-- Whether a declaration of a file starts with this token. -/
def startsDeclaration : Token → Bool
  | keyword k => k.startsDeclaration
  | _ => false

/-- How messages speak of a token. -/
def describe : Token → String
  | keyword k => s!"'{k.spelling}'"
  | sign s => s!"'{s.char}'"
  | opening b => s!"'{b.left}'"
  | closing b => s!"'{b.right}'"
  | terminator => "end of statement"
  | identifier name => s!"identifier '{name}'"
  | number text => s!"number '{text}'"
  | literal content => s!"literal \"{content}\""
  | typeName content => "type \x60" ++ content ++ "\x60"

end Token

/-- A token and where it stands. -/
structure Lexeme where
  token : Token
  span : Span
  deriving DecidableEq, Repr

end StockFlow
