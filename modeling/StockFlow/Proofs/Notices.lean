import StockFlow.Proofs.Decimal.Fixed
import StockFlow.Proofs.Source.Line
import StockFlow.Proofs.Token.Rescan

/-!
# Notices point at what is wrong

A message repeats tokens of the text, and no token spans lines. So a notice has three lines: what is
wrong and where, the line of the text, and the caret.

* `OneLine` — a text on one line
* `SyntaxFault.oneLine_message` — what is said about a fault is on one line
* `Snippet.splitOn_render` — the lines of a notice
* `File.oneLine_of_mem_errors` — the message of every error of a text is on one line
* `File.notice_points` — the line is the one that holds the position, and the caret stands under it
-/

namespace StockFlow

/-- A text on one line. -/
def OneLine (s : String) : Prop := '\n' ∉ s.toList

instance (s : String) : Decidable (OneLine s) := inferInstanceAs (Decidable ('\n' ∉ s.toList))

namespace OneLine

variable {s t u : String}

theorem append (h : OneLine s) (h' : OneLine t) : OneLine (s ++ t) := by
  rw [OneLine, String.toList_append, List.mem_append]
  exact not_or.mpr ⟨h, h'⟩

/-- A text between two others. -/
theorem between (h : OneLine s) (h' : OneLine t) (h'' : OneLine u) : OneLine (s ++ t ++ u) :=
  (h.append h').append h''

theorem of_char {c : Char} (h : c ≠ '\n') : OneLine (toString c) := by
  show '\n' ∉ (String.singleton c).toList
  simpa using h.symm

theorem of_nat (n : Nat) : OneLine (toString n) := by
  show '\n' ∉ (Nat.repr n).toList
  rw [Nat.toList_repr]
  intro hmem
  have hdigit := Nat.isDigit_of_mem_toDigits (by decide) (by decide) hmem
  exact (Decimal.digit_clean hdigit).2 rfl

end OneLine

/-! ## Messages -/

/-- **A token is described on one line,** as it is plain and can be written. -/
theorem Token.oneLine_describe {t : Token} (hplain : t.IsPlain)
    (hlexical : t.Readable → t.Lexical) : OneLine t.describe := by
  cases t with
  | keyword k => cases k <;> decide
  | sign s => cases s <;> decide
  | opening b => cases b <;> decide
  | closing b => cases b <;> decide
  | terminator => decide
  | identifier name =>
    refine OneLine.between (by decide) (fun hmem => ?_) (by decide)
    have hcontinues := List.all_eq_true.mp (hlexical trivial).2.1 _ hmem
    exact absurd hcontinues (by decide)
  | number text =>
    exact OneLine.between (by decide) (fun hmem => (hplain _ hmem).2 rfl) (by decide)
  | literal content =>
    exact OneLine.between (by decide) (fun hmem => (hlexical trivial _ hmem).2 rfl) (by decide)
  | typeName content =>
    exact OneLine.between (by decide) (fun hmem => (hlexical trivial _ hmem).2 rfl) (by decide)

theorem Wanted.oneLine_describe {w : Wanted} (h : w.isFixed = true) : OneLine w.describe := by
  cases w with
  | token t =>
    cases t with
    | sign s => cases s <;> decide
    | opening b => cases b <;> decide
    | closing b => cases b <;> decide
    | _ => cases h
  | _ => decide

/-- **A message is on one line** if it speaks of such a token, or of the end of the text. -/
theorem SyntaxFault.oneLine_message {f : SyntaxFault} {found : Option Token} (h : f.SpeaksOf found)
    (hfound : ∀ t ∈ found, t.IsPlain ∧ (t.Readable → t.Lexical)) : OneLine f.message := by
  have hdescribe : ∀ t, found = some t → OneLine t.describe :=
    fun t ht => Token.oneLine_describe (hfound t ht).1 (hfound t ht).2
  cases f with
  | endOfFile w => exact OneLine.between (by decide) (Wanted.oneLine_describe h.2) (by decide)
  | unexpected w t =>
    exact (OneLine.between (by decide) (Wanted.oneLine_describe h.2) (by decide)).append
      (hdescribe t h.1)
  | badNumber text =>
    refine OneLine.between (by decide) (fun hmem => ?_) (by decide)
    exact ((hfound _ h).1 _ hmem).2 rfl
  | noIdentifier t => exact OneLine.append (by decide) (hdescribe t h)
  | noTerminator t => exact OneLine.append (by decide) (hdescribe t h)
  | _ => exact h.elim

/-- What the scanner has to say is on one line. -/
def ScanStep.Brief : ScanStep → Prop
  | .error e => OneLine e.message
  | .lexeme _ _ | .gap _ => True

namespace Scan

theorem quoted_brief {cur : Cursor} {quote : Char} {make : String → Token} {fault : SyntaxFault}
    (h : OneLine fault.message) : (quoted cur quote make fault).Brief := by
  unfold quoted
  simp only
  split
  · trivial
  · exact h

theorem blockComment_brief {ended : Bool} {cur : Cursor} : (blockComment ended cur).Brief := by
  unfold blockComment
  simp only
  split
  · show OneLine SyntaxFault.openComment.message
    decide
  · split <;> trivial
  · trivial

theorem slash_brief {ended : Bool} {cur : Cursor} : (slash ended cur).Brief := by
  unfold slash
  split
  · trivial
  · exact blockComment_brief
  · trivial

/-- A newline is never a character that belongs to no token. -/
theorem step_brief {ended : Bool} {pos : Pos} {c : Char} {rest : List Char} :
    (step ended pos c rest).Brief := by
  unfold step
  simp only
  split
  · unfold lineEnd
    split <;> trivial
  next hline =>
  split
  · exact slash_brief
  split
  · exact quoted_brief (by decide)
  split
  · exact quoted_brief (by decide)
  split
  · trivial
  split
  · trivial
  split
  · trivial
  · split
    · trivial
    · exact OneLine.between (by decide) (OneLine.of_char hline) (by decide)

/-- **The error that stops the scanner** is told on one line. -/
theorem oneLine_error {text : String} {e : SyntaxError} (he : (ofText text).error = some e) :
    OneLine e.message := by
  have hall : ∀ ended cur, ∀ e ∈ (scanFrom ended cur).error, OneLine e.message := by
    intro ended cur
    fun_induction scanFrom ended cur with
    | case1 | case2 =>
      intro e he
      cases he
    | case3 ended c rest pos l next hstep ih => exact ih
    | case4 ended c rest pos next hstep ih => exact ih
    | case5 ended c rest pos e hstep =>
      have hbrief := @step_brief ended pos c rest
      rw [hstep] at hbrief
      exact fun e' he' => Option.some.inj he' ▸ hbrief
  exact hall _ _ e he

end Scan

/-! ## The lines of a notice -/

namespace Snippet

/-- A line is still one when it is shown. -/
theorem newline_not_mem_shown {cs : List Char} (h : '\n' ∉ cs) : '\n' ∉ cs.flatMap shown := by
  intro hmem
  obtain ⟨c, hc, hshown⟩ := List.mem_flatMap.mp hmem
  unfold shown at hshown
  split at hshown
  · exact absurd (List.eq_of_mem_replicate hshown) (by decide)
  · exact h (List.mem_singleton.mp hshown ▸ hc)

/-- **The three lines of a notice.** -/
theorem splitOn_render {pos : Pos} {message filename source : String}
    (hmessage : OneLine message) (hname : OneLine filename)
    (hline : '\n' ∉ line source pos.line) :
    (render pos message filename source).toList.splitOn '\n' =
      [s!"{filename}:{pos.line}:{pos.col}: error: {message}".toList,
        (line source pos.line).flatMap shown,
        List.replicate (indent (line source pos.line) pos.col) ' ' ++ ['^']] := by
  have hheader : OneLine s!"{filename}:{pos.line}:{pos.col}: error: {message}" :=
    ((OneLine.between hname (by decide) (.of_nat _)).between (by decide) (.of_nat _)).between
      (by decide) hmessage
  have hcaret : '\n' ∉ List.replicate (indent (line source pos.line) pos.col) ' ' ++ ['^'] := by
    simp
  have hrender : (render pos message filename source).toList =
      s!"{filename}:{pos.line}:{pos.col}: error: {message}".toList ++ '\n' ::
        ((line source pos.line).flatMap shown ++ '\n' ::
          (List.replicate (indent (line source pos.line) pos.col) ' ' ++ ['^'])) := by
    simp only [render, String.toList_append, String.toList_ofList, List.append_assoc]
    rfl
  rw [hrender, List.splitOn_append_cons_self_of_not_mem hheader,
    List.splitOn_append_cons_self_of_not_mem (newline_not_mem_shown hline),
    List.splitOn_eq_singleton hcaret]

end Snippet

/-! ## The errors of a text -/

namespace File

variable {text filename : String} {e : SyntaxError}

/-- **Every message is on one line.** -/
theorem oneLine_of_mem_errors (h : AsciiDigits text.toList) (he : e ∈ (parse text).errors) :
    OneLine e.message := by
  rcases found_of_mem_errors he with hscan | ⟨t, ht, hat⟩
  · exact Scan.oneLine_error hscan
  · refine SyntaxFault.oneLine_message hat.speaks fun found hfound => ?_
    obtain ⟨l, hl, rfl⟩ := Option.map_eq_some_iff.mp hfound
    have hmem := ht.suffix.1.mem (List.mem_of_mem_head? hl)
    exact ⟨Scan.isPlain_of_asciiDigits h l hmem, Scan.lexical_of_mem hmem⟩

/-- **A notice points at what is wrong.** In a text without digits of other scripts there is a line
that holds the position of an error. It is the second line of the notice, with eight spaces for a
tab. In the third line the caret is indented as far as what is before the position is wide when it
is shown, so it stands under the character there, or behind the line if the position is at its
end. -/
theorem notice_points (h : AsciiDigits text.toList) (hname : OneLine filename)
    (he : e ∈ (parse text).errors) :
    (∃ l : Line, l.IsIn text.toList ∧ l.Holds e.pos.offset) ∧
      ∀ l : Line, l.IsIn text.toList → l.Holds e.pos.offset →
        (e.render filename text).toList.splitOn '\n' =
          [s!"{filename}:{e.pos.line}:{e.pos.col}: error: {e.message}".toList,
            Line.widened l.content,
            List.replicate (Line.widened (l.before e.pos.offset)).length ' ' ++ ['^']] ∧
        l.ShownAt e.pos.offset (Line.widened (l.before e.pos.offset)).length := by
  have hpos := isExact_of_mem_errors h he
  refine ⟨Line.exists_of_isExact hpos, fun l hl hoffset => ⟨?_, ?_⟩⟩
  · have hline := Line.line_eq hl hpos hoffset
    have hindent : Snippet.indent l.content e.pos.col =
        (Line.widened (l.before e.pos.offset)).length := by
      rw [Snippet.indent, Line.take_eq_before hl hpos hoffset, ← Line.flatMap_shown,
        Snippet.length_flatMap_shown]
    rw [SyntaxError.render, Snippet.splitOn_render (oneLine_of_mem_errors h he) hname
      (hline ▸ hl.single), hline, hindent, Line.flatMap_shown]
  · exact Line.shownAt_before hl hpos hoffset

/-- A model that does not end, with carriage returns, a tab and a letter of two bytes. -/
def returned : String := "model m \x7b\r\n\ty = (é\r\n\x7d\r\n"

/-- The line of the model with the open parenthesis. -/
def returnedLine : Line where
  earlier := "model m \x7b\r\n".toList
  content := "\ty = (é".toList
  ending := ['\r', '\n']
  later := "\x7d\r\n".toList

/-- The parenthesis is missed where a terminator was put in, between the carriage return and the
newline. -/
def parenthesisMissed : SyntaxError :=
  ⟨⟨20, 2, 9⟩, .unexpected (.token (.closing .round)) .terminator⟩

theorem notice_points_returned : AsciiDigits returned.toList ∧ OneLine "a.flow" ∧
    parenthesisMissed ∈ (parse returned).errors ∧ returnedLine.IsIn returned.toList ∧
    returnedLine.Holds 20 ∧
    (parenthesisMissed.render "a.flow" returned).toList.splitOn '\n' =
      ["a.flow:2:9: error: expected ')', found end of statement".toList,
        "        y = (é".toList, "              ^".toList] ∧
    returnedLine.ShownAt 20 14 := by
  have hascii : AsciiDigits returned.toList := by decide +kernel
  have hname : OneLine "a.flow" := by decide
  have hmem : parenthesisMissed ∈ (parse returned).errors := by decide +kernel
  have hline : returnedLine.IsIn returned.toList :=
    ⟨by decide +kernel, .inr (by decide), by decide, .returned⟩
  have hholds : returnedLine.Holds 20 := ⟨by decide, .inl (by decide)⟩
  obtain ⟨hnotice, hshown⟩ := (notice_points hascii hname hmem).2 returnedLine hline hholds
  exact ⟨hascii, hname, hmem, hline, hholds, hnotice.trans (by decide +kernel), hshown⟩

end File

end StockFlow
