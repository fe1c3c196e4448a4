import StockFlow.Source.Snippet
import StockFlow.Token.Basic

/-!
# Faults of a text

What can be wrong with a text before it has a meaning: characters that are no token, literals and
comments that do not end, and tokens that do not fit where they stand.

* `SyntaxFault.code` — the short name of a fault
* `SyntaxFault.message` — what is said about it
-/

namespace StockFlow

/-- What was looked for where something else stood. -/
inductive Wanted where
  | token (t : Token)
  | identifier
  | declaration
  | importPath
  | expression
  /-- The next argument of a call or its end. -/
  | argumentEnd
  /-- The next element of a structured value or its end. -/
  | elementEnd
  /-- The next point of a table or its end. -/
  | pointEnd
  deriving DecidableEq, Repr

namespace Wanted

/-- How messages name what was looked for. -/
def describe : Wanted → String
  | token t => t.describe
  | identifier => "identifier"
  | declaration => "'model', 'interface' or 'kind'"
  | importPath => "import path"
  | expression => "expression"
  | argumentEnd => "',' or ')'"
  | elementEnd => "',', '\x7d' or end of line"
  | pointEnd => "',' or ']'"

end Wanted

/-- What is wrong at a place of a text. -/
inductive SyntaxFault where
  /-- A character that belongs to no token. -/
  | unknownChar (c : Char)
  | openLiteral
  | openTypeName
  | openComment
  /-- The text ends where something was looked for. -/
  | endOfFile (wanted : Wanted)
  /-- A token stands where something else was looked for. -/
  | unexpected (wanted : Wanted) (found : Token)
  /-- A numeral that is no number. -/
  | badNumber (text : String)
  | noIdentifier (found : Token)
  | noTerminator (found : Token)
  deriving DecidableEq, Repr

namespace SyntaxFault

/-- The short name of a fault. -/
def code : SyntaxFault → String
  | unknownChar _ => "unrecognized_char"
  | openLiteral => "unclosed_literal"
  | openTypeName => "unclosed_type_decl"
  | openComment => "unclosed_comment"
  | endOfFile _ => "unrecognized_eof"
  | unexpected _ _ => "unrecognized_token"
  | badNumber _ => "expected_number"
  | noIdentifier _ => "expected_ident"
  | noTerminator _ => "expected_terminator"

/-- What is said about a fault. -/
def message : SyntaxFault → String
  | unknownChar c => s!"unrecognized char: '{c}'"
  | openLiteral => "unterminated literal"
  | openTypeName => "unterminated type declaration"
  | openComment => "unterminated comment"
  | endOfFile wanted => s!"expected {wanted.describe}, found end of file"
  | unexpected wanted found => s!"expected {wanted.describe}, found {found.describe}"
  | badNumber text => s!"invalid number '{text}'"
  | noIdentifier found => s!"expected identifier, found {found.describe}"
  | noTerminator found => s!"expected end of statement, found {found.describe}"

end SyntaxFault

/-- A fault and where it is. -/
structure SyntaxError where
  pos : Pos
  fault : SyntaxFault
  deriving DecidableEq, Repr

namespace SyntaxError

/-- What is said about an error. -/
def message (e : SyntaxError) : String := e.fault.message

/-- The error on one line. -/
def brief (e : SyntaxError) : String := Snippet.brief e.pos e.message

/-- The error with the line of the source that it concerns. -/
def render (e : SyntaxError) (filename source : String) : String :=
  Snippet.render e.pos e.message filename source

end SyntaxError

end StockFlow
