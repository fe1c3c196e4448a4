import Mathlib.Data.List.Induction
import StockFlow.Proofs.Grammar.Faults
import StockFlow.Proofs.Token.Tiling

/-!
# Positions are exact

* `Pos.IsExact` — a position that counts the bytes, the lines and the characters before it
* `Scan.placed_ofText` — where tokens start and end
* `File.isExact_of_mem_errors` — where the errors of a text are
* `File.positions_exact` — tokens and errors stand where they say
-/

namespace StockFlow

namespace Pos

/-- **A position of a text** that counts what is before it: its bytes, its line ends, and its
characters since the last line end. -/
def IsExact (p : Pos) (text : List Char) : Prop :=
  ∃ before after, text = before ++ after ∧ p.offset = byteCount before ∧
    p.line = 1 + before.count '\n' ∧
    p.col = 1 + (before.reverse.takeWhile (· ≠ '\n')).length

/-- Stepping over a text counts it. -/
theorem afterAll_start (cs : List Char) : start.afterAll cs =
    ⟨byteCount cs, 1 + cs.count '\n', 1 + (cs.reverse.takeWhile (· ≠ '\n')).length⟩ := by
  induction cs using List.reverseRecOn with
  | nil => rfl
  | append_singleton cs c ih =>
    rw [afterAll_append, ih, afterAll_cons, afterAll_nil, after, byteCount_append]
    by_cases hc : c = '\n'
    · simp [hc, Nat.add_assoc]
    · simp [hc, Nat.add_comm]

theorem isExact_afterAll (before after : List Char) :
    (start.afterAll before).IsExact (before ++ after) := by
  refine ⟨before, after, rfl, ?_⟩
  rw [afterAll_start]
  exact ⟨rfl, rfl, rfl⟩

theorem isExact_ofEnd (text : String) : (ofEnd text).IsExact text.toList := by
  have hend := isExact_afterAll text.toList []
  rwa [List.append_nil] at hend

end Pos

/-- A place of a text that has been reached by reading it. -/
def Cursor.IsIn (cur : Cursor) (text : List Char) : Prop :=
  ∃ before, text = before ++ cur.rest ∧ cur.pos = Pos.start.afterAll before

/-- A terminator that was put in where a line ends. -/
def Lexeme.IsLineEnd (l : Lexeme) (text : List Char) : Prop :=
  l.token = .terminator ∧ ∃ before after, text = before ++ '\n' :: after ∧
    l.span.start = Pos.start.afterAll before

/-- The positions of a token are exact, but for the end of a terminator that was put in where a line
ends. -/
structure Lexeme.IsPlaced (l : Lexeme) (text : List Char) : Prop where
  start : l.span.start.IsExact text
  stop : ¬l.IsLineEnd text → l.span.stop.IsExact text

namespace Cursor.IsIn

variable {cur next : Cursor} {text used : List Char}

theorem read (h : cur.IsIn text) (hreads : cur.Reads next used) : next.IsIn text := by
  obtain ⟨before, htext, hpos⟩ := h
  refine ⟨before ++ used, ?_, ?_⟩
  · rw [htext, hreads.rest, List.append_assoc]
  · rw [hreads.pos, hpos, Pos.afterAll_append]

theorem isExact (h : cur.IsIn text) : cur.pos.IsExact text := by
  obtain ⟨before, htext, hpos⟩ := h
  rw [htext, hpos]
  exact Pos.isExact_afterAll before cur.rest

end Cursor.IsIn

namespace Scan

/-- What a step takes or finds is where it says, and so is the place that it leads to. -/
def Placed (text : List Char) : ScanStep → Prop
  | .lexeme l next => l.token.IsPlain → l.IsPlaced text ∧ next.IsIn text
  | .gap next => next.IsIn text
  | .error e => e.pos.IsExact text

theorem placed_of_moves {ended : Bool} {cur : Cursor} {r : ScanStep} {text : List Char}
    (h : r.Moves ended cur) (hcur : cur.IsIn text) : Placed text r := by
  cases h with
  | gap hreads => exact hcur.read hreads
  | token hreads =>
    have hnext := hcur.read hreads
    exact fun _ => ⟨⟨hcur.isExact, fun _ => hnext.isExact⟩, hnext⟩
  | @lineEnd before after next _ hreads =>
    obtain ⟨done, htext, hpos⟩ := hcur
    have hline : cur.pos.afterAll before = Pos.start.afterAll (done ++ before) := by
      rw [hpos, Pos.afterAll_append]
    have hall : text = (done ++ before) ++ '\n' :: (after ++ next.rest) := by
      rw [htext, hreads.rest]
      simp
    refine fun _ => ⟨⟨?_, fun hnot => absurd ⟨rfl, _, _, hall, hline⟩ hnot⟩,
      Cursor.IsIn.read ⟨done, htext, hpos⟩ hreads⟩
    rw [hline, hall]
    exact Pos.isExact_afterAll _ _
  | error hpos =>
    show Pos.IsExact _ text
    rw [hpos]
    exact hcur.isExact
  | lossy _ _ _ hwide => exact fun hplain => absurd hplain hwide

/-- **Every token stands where it says,** and so does the error that stops the scanner. -/
theorem placed_scanFrom {ended : Bool} {cur : Cursor} {text : List Char} (hcur : cur.IsIn text)
    (hplain : ∀ l ∈ (scanFrom ended cur).lexemes, l.token.IsPlain) :
    (∀ l ∈ (scanFrom ended cur).lexemes, l.IsPlaced text) ∧
      ∀ e, (scanFrom ended cur).error = some e → e.pos.IsExact text := by
  fun_induction scanFrom ended cur with
  | case1 =>
    refine ⟨List.forall_mem_singleton.mpr ⟨hcur.isExact, fun _ => hcur.isExact⟩, fun e he => ?_⟩
    cases he
  | case2 =>
    refine ⟨List.forall_mem_nil _, fun e he => ?_⟩
    cases he
  | case3 ended c rest pos l next hstep ih =>
    have hplaced := placed_of_moves (@step_moves ended pos c rest) hcur
    rw [hstep] at hplaced
    obtain ⟨hl, hmore⟩ := List.forall_mem_cons.mp hplain
    obtain ⟨hhere, hnext⟩ := hplaced hl
    obtain ⟨hlexemes, herror⟩ := ih hnext hmore
    exact ⟨List.forall_mem_cons.mpr ⟨hhere, hlexemes⟩, herror⟩
  | case4 ended c rest pos next hstep ih =>
    have hplaced := placed_of_moves (@step_moves ended pos c rest) hcur
    rw [hstep] at hplaced
    exact ih hplaced hplain
  | case5 ended c rest pos e hstep =>
    have hplaced := placed_of_moves (@step_moves ended pos c rest) hcur
    rw [hstep] at hplaced
    exact ⟨List.forall_mem_nil _, fun e' he => Option.some.inj he ▸ hplaced⟩

theorem placed_ofText {text : String} (h : AsciiDigits text.toList) :
    (∀ l ∈ (ofText text).lexemes, l.IsPlaced text.toList) ∧
      ∀ e, (ofText text).error = some e → e.pos.IsExact text.toList :=
  placed_scanFrom ⟨[], rfl, rfl⟩ (isPlain_of_asciiDigits h)

end Scan

namespace File

/-- **Every error is at a position of the text.** -/
theorem isExact_of_mem_errors {text : String} {e : SyntaxError}
    (h : AsciiDigits text.toList) (he : e ∈ (parse text).errors) :
    e.pos.IsExact text.toList := by
  obtain ⟨hlexemes, herror⟩ := Scan.placed_ofText h
  rcases found_of_mem_errors he with hscan | ⟨t, ht, hat⟩
  · exact herror e hscan
  · rw [hat.pos]
    rcases Stream.here_of_onward ht with ⟨l, hl, hhere⟩ | hhere
    · rw [hhere]
      exact (hlexemes l hl).start
    · rw [hhere]
      exact Pos.isExact_ofEnd text

/-- **Positions are exact.** In a text without digits of other scripts, every token starts where it
says and ends there too, unless it was put in where a line ends, and every error that is found in
the text stands where it says. -/
theorem positions_exact {text : String} (h : AsciiDigits text.toList) :
    (∀ l ∈ (Scan.ofText text).lexemes, l.span.start.IsExact text.toList ∧
        (¬l.IsLineEnd text.toList → l.span.stop.IsExact text.toList)) ∧
      ∀ e ∈ (parse text).errors, e.pos.IsExact text.toList := by
  obtain ⟨hlexemes, _⟩ := Scan.placed_ofText h
  exact ⟨fun l hl => ⟨(hlexemes l hl).start, (hlexemes l hl).stop⟩,
    fun _ he => isExact_of_mem_errors h he⟩

/-- A text with letters of several bytes, a comment over two lines and a model that does not end. -/
def unclosed : String := "model höhe \x7b\n  x = /* zwei\n  */ \"é\" // +\n  y = x +\n"

theorem positions_exact_unclosed : AsciiDigits unclosed.toList ∧
    (parse unclosed).errors.map SyntaxError.pos = [⟨53, 5, 1⟩, ⟨53, 5, 1⟩] ∧
    (∀ l ∈ (Scan.ofText unclosed).lexemes, l.span.start.IsExact unclosed.toList ∧
        (¬l.IsLineEnd unclosed.toList → l.span.stop.IsExact unclosed.toList)) ∧
      ∀ e ∈ (parse unclosed).errors, e.pos.IsExact unclosed.toList := by
  have hascii : AsciiDigits unclosed.toList := by decide +kernel
  have herrors : (parse unclosed).errors.map SyntaxError.pos = [⟨53, 5, 1⟩, ⟨53, 5, 1⟩] := by
    decide +kernel
  exact ⟨hascii, herrors, positions_exact hascii⟩

end File

end StockFlow
