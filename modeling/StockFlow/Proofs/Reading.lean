import StockFlow.Proofs.Grammar.Outline
import StockFlow.Proofs.Token.Scan

/-!
# No part of a text is ignored

* `File.reading_of_parse` — where no error is found, a text is accounted for by its tokens, and the
  tokens are accounted for by what the text declares
-/

namespace StockFlow

/-- What a text declares accounts for all of the text. -/
structure Reading (text : String) (lexemes : List Lexeme) (file : File) : Prop where
  /-- Tokens start one behind the other, and each ends before the next one starts. -/
  ordered : lexemes.Pairwise fun l m => l.span.start.offset < m.span.start.offset ∧
    l.span.stop.offset ≤ m.span.start.offset
  /-- Each token is written where its span says. -/
  written : ∀ l ∈ lexemes, l.IsWrittenIn Pos.start text.toList
  /-- The text is made up of white space, comments and the texts of tokens. -/
  tiled : ∃ pieces : List (List Char), text.toList = pieces.flatten ∧ ∀ before piece after,
    pieces = before ++ piece :: after → Gap piece ∨ ∃ l ∈ lexemes,
      l.span.start = Pos.start.afterAll before.flatten ∧
        l.span.stop.offset = byteCount (before.flatten ++ piece)
  /-- What is declared, read out in order, is the row of tokens. -/
  spelled : Spells file.words (lexemes.map Lexeme.token)

namespace File

/-- **No part of a text is ignored.** Where no error is found in a text, its tokens lie in it one
behind the other with white space and comments between them, and the words of what it declares are
its tokens, but for terminators and the commas behind elements. -/
theorem reading_of_parse {text : String} (h : (parse text).errors = []) :
    ∃ lexemes, Scan.ofText text = ⟨lexemes, none⟩ ∧ Reading text lexemes (parse text) := by
  have hok : (Scan.ofText text).error = none := by
    cases herror : (Scan.ofText text).error with
    | none => rfl
    | some e =>
      simp only [parse, herror] at h
      cases h
  have hparse : parse text = ofStream ⟨(Scan.ofText text).lexemes, Pos.start, Pos.ofEnd text⟩ := by
    simp only [parse, hok]
  rw [hparse] at h
  have hspells := spells_ofStream h
  -- numbers are read as numerals, so the scanner lost nothing behind them
  have hread : ∀ l ∈ (Scan.ofText text).lexemes, l.token.Readable := fun l hl =>
    hspells.readable l.token (List.mem_map_of_mem hl)
  have hlayout := Scan.layout_ofText hok hread
  refine ⟨(Scan.ofText text).lexemes, congrArg (Scan.mk _) hok, ?_⟩
  refine ⟨hlayout.ordered, hlayout.writing, ?_, hparse ▸ hspells⟩
  obtain ⟨pieces, htext, hpieces⟩ := hlayout.tiles
  refine ⟨pieces, htext, fun before piece after heq => ?_⟩
  refine (hpieces before piece after heq).imp_right ?_
  rintro ⟨l, hl, hstart, hstop⟩
  exact ⟨l, hl, hstart, hstop.trans (Nat.zero_add _)⟩

/-- A text with units in backticks, a comma behind the last element, a comment over a line end, and
a name that holds a digit of another script. -/
def herd : String :=
  "kind mass \x60kg\x60\nmodel herd \x7b\n" ++
  "  size mass \"kg\" = stock \x7b initial: 2 * (begun + 1), \x7d /* the\n" ++
  "  level */ rate\u0663 \x60per_year\x60\n\x7d\n"

theorem reading_of_parse_herd : (parse herd).errors = [] ∧
    ∃ lexemes, Scan.ofText herd = ⟨lexemes, none⟩ ∧ Reading herd lexemes (parse herd) := by
  have hok : (parse herd).errors = [] := by decide +kernel
  exact ⟨hok, reading_of_parse hok⟩

-- behind a numeral with a digit of another script the scanner loses the `x`, but the text has
-- errors
example : (parse "model m \x7b\n  a = 1\u0663x\n\x7d").errors ≠ [] := by decide +kernel

end File

end StockFlow
