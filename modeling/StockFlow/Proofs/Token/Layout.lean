import StockFlow.Decimal.Reading
import StockFlow.Token.Scan

/-!
# How tokens lie in a text

A text from which tokens were taken is a row of stretches. Each is a blank, a comment or the text of
one token; a comment with a line end in it may stand for a terminator.

* `Layout` — how tokens lie in a text
* `Layout.writing` — each token is written where its span says
* `Layout.ordered` — each token ends before the next one starts
* `Layout.tiles` — the text is made up of gaps and of the texts of the tokens
-/

namespace StockFlow

/-! ## Texts of tokens and between tokens -/

namespace Token

/-- How a token is written. A terminator is a semicolon or a line end. -/
def IsWritten : Token → List Char → Prop
  | keyword k, cs => cs = k.spelling.toList
  | sign s, cs => cs = [s.char]
  | opening b, cs => cs = [b.left]
  | closing b, cs => cs = [b.right]
  | terminator, cs => cs = [';'] ∨ cs = ['\n']
  | identifier name, cs => cs = name.toList
  | number text, cs => cs = text.toList
  | literal content, cs => cs = '"' :: content.toList ++ ['"']
  | typeName content, cs => cs = '\x60' :: content.toList ++ ['\x60']

/-- A number is readable if it is a numeral. All other tokens are. -/
def Readable : Token → Prop
  | number text => (Decimal.Number.parse? text.toList).isSome
  | _ => True

end Token

/-- What may stand between tokens: a character of white space, a comment on a line, and a comment
up to the first mark of its end. -/
inductive Gap : List Char → Prop
  | blank {c : Char} : Text.isBlank c = true → Gap [c]
  | line {cs : List Char} : '\n' ∉ cs → Gap ('/' :: '/' :: cs)
  | block {cs : List Char} : ¬['*', '/'] <:+: cs → Gap ('/' :: '*' :: (cs ++ ['*', '/']))

/-- A stretch of text that starts at `pos`, and the token in it if there is one. -/
inductive Stretch (pos : Pos) : List Char → List Lexeme → Prop
  | gap {cs : List Char} : Gap cs → Stretch pos cs []
  | token {cs : List Char} {t : Token} {stop : Pos} : t.IsWritten cs → cs ≠ [] →
      stop.offset = pos.offset + byteCount cs → Stretch pos cs [⟨t, pos, stop⟩]
  /-- A line end in a comment ends a statement. -/
  | lineEnd {cs before after : List Char} : Gap cs → cs = before ++ '\n' :: after →
      Stretch pos cs [⟨.terminator, pos.afterAll before, (pos.afterAll before).shift 1⟩]

/-- How tokens lie in a text that starts at `pos`. -/
inductive Layout : Pos → List Char → List Lexeme → Prop
  | done {pos : Pos} : Layout pos [] []
  /-- The end of the text ends a statement. -/
  | textEnd {pos : Pos} : Layout pos [] [⟨.terminator, pos, pos⟩]
  | stretch {pos : Pos} {cs rest : List Char} {here ls : List Lexeme} : Stretch pos cs here →
      Layout (pos.afterAll cs) rest ls → Layout pos (cs ++ rest) (here ++ ls)

/-! ## Where the spans are -/

theorem byteCount_append (cs ds : List Char) :
    byteCount (cs ++ ds) = byteCount cs + byteCount ds := by
  induction cs with
  | nil => simp
  | cons c cs ih => simp [ih, Nat.add_assoc]

theorem byteCount_pos {cs : List Char} (h : cs ≠ []) : 0 < byteCount cs :=
  Nat.lt_of_lt_of_le (List.length_pos_iff.mpr h) (Scan.byteCount_le cs)

/-- The token of `l` is written in a text that starts at `pos`, where its span says. At the end of
the text a terminator may stand that is not written. -/
def Lexeme.IsWrittenIn (l : Lexeme) (pos : Pos) (cs : List Char) : Prop :=
  ∃ before written after, cs = before ++ written ++ after ∧ l.span.start = pos.afterAll before ∧
    l.span.stop.offset = pos.offset + byteCount (before ++ written) ∧
    (l.token.IsWritten written ∨ l.token = .terminator ∧ written = [] ∧ after = [])

namespace Stretch

variable {pos : Pos} {cs : List Char} {here : List Lexeme} {l : Lexeme}

theorem writing (h : Stretch pos cs here) (hl : l ∈ here) :
    ∃ before written after, cs = before ++ written ++ after ∧ l.span.start = pos.afterAll before ∧
      l.span.stop.offset = pos.offset + byteCount (before ++ written) ∧ written ≠ [] ∧
      l.token.IsWritten written := by
  cases h with
  | gap => cases hl
  | token hwritten hne hstop =>
    obtain rfl := List.mem_singleton.mp hl
    exact ⟨[], cs, [], by simp, rfl, hstop, hne, hwritten⟩
  | @lineEnd before after _ heq =>
    obtain rfl := List.mem_singleton.mp hl
    refine ⟨before, ['\n'], after, by simp [heq], rfl, ?_, by simp, Or.inr rfl⟩
    rw [byteCount_append, ← Nat.add_assoc, ← Pos.offset_afterAll]
    rfl

/-- The span of the token in a stretch is not empty and lies in the stretch. -/
theorem within (h : Stretch pos cs here) (hl : l ∈ here) :
    l.span.start.offset < l.span.stop.offset ∧
      l.span.stop.offset ≤ (pos.afterAll cs).offset := by
  obtain ⟨before, written, after, rfl, hstart, hstop, hne, -⟩ := h.writing hl
  have := byteCount_pos hne
  simp only [hstart, hstop, Pos.offset_afterAll, byteCount_append]
  omega

end Stretch

namespace Layout

variable {pos : Pos} {cs : List Char} {ls : List Lexeme}

/-- **Each token is written where its span says.** -/
theorem writing (h : Layout pos cs ls) : ∀ l ∈ ls, l.IsWrittenIn pos cs := by
  induction h with
  | done => exact nofun
  | @textEnd pos =>
    intro l hl
    obtain rfl := List.mem_singleton.mp hl
    exact ⟨[], [], [], rfl, rfl, rfl, Or.inr ⟨rfl, rfl, rfl⟩⟩
  | @stretch pos cs rest here ls hhere _ ih =>
    intro l hl
    rcases List.mem_append.mp hl with hl | hl
    · obtain ⟨before, written, after, rfl, hstart, hstop, -, hwritten⟩ := hhere.writing hl
      exact ⟨before, written, after ++ rest, by simp, hstart, hstop, Or.inl hwritten⟩
    · obtain ⟨before, written, after, rfl, hstart, hstop, hwritten⟩ := ih l hl
      refine ⟨cs ++ before, written, after, by simp, ?_, ?_, hwritten⟩
      · rw [hstart, Pos.afterAll_append]
      · rw [hstop, Pos.offset_afterAll, List.append_assoc, byteCount_append cs, Nat.add_assoc]

/-- **Each token ends before the next one starts.** -/
theorem ordered (h : Layout pos cs ls) :
    ls.Pairwise fun l m => l.span.start.offset < m.span.start.offset ∧
      l.span.stop.offset ≤ m.span.start.offset := by
  induction h with
  | done => exact .nil
  | textEnd => exact List.pairwise_singleton ..
  | @stretch pos cs rest here ls hhere hls ih =>
    refine List.pairwise_append.mpr ⟨?_, ih, ?_⟩
    · cases hhere with
      | gap => exact .nil
      | token => exact List.pairwise_singleton ..
      | lineEnd => exact List.pairwise_singleton ..
    · intro l hl m hm
      obtain ⟨hne, hstop⟩ := hhere.within hl
      obtain ⟨before, _, _, _, hstart, _⟩ := hls.writing m hm
      have hm : (pos.afterAll cs).offset ≤ m.span.start.offset := by
        rw [hstart, Pos.offset_afterAll (pos.afterAll cs)]
        exact Nat.le_add_right ..
      omega

/-- **The text is made up of gaps and of the texts of the tokens.** -/
theorem tiles (h : Layout pos cs ls) :
    ∃ pieces : List (List Char), cs = pieces.flatten ∧ ∀ before piece after,
      pieces = before ++ piece :: after → Gap piece ∨ ∃ l ∈ ls,
        l.span.start = pos.afterAll before.flatten ∧
          l.span.stop.offset = pos.offset + byteCount (before.flatten ++ piece) := by
  induction h with
  | done => exact ⟨[], rfl, by simp⟩
  | textEnd => exact ⟨[], rfl, by simp⟩
  | @stretch pos cs rest here ls hhere _ ih =>
    obtain ⟨pieces, rfl, hpieces⟩ := ih
    refine ⟨cs :: pieces, rfl, ?_⟩
    intro before piece after heq
    rcases List.cons_eq_append_iff.mp heq with ⟨rfl, hhead⟩ | ⟨before', rfl, hrest⟩
    · obtain ⟨rfl, rfl⟩ := List.cons.inj hhead
      cases hhere with
      | gap hgap => exact Or.inl hgap
      | token _ _ hstop => exact Or.inr ⟨_, List.mem_cons_self .., rfl, hstop⟩
      | lineEnd hgap => exact Or.inl hgap
    · refine (hpieces before' piece after hrest).imp_right ?_
      rintro ⟨l, hl, hstart, hstop⟩
      refine ⟨l, List.mem_append_right here hl, ?_, ?_⟩
      · rw [hstart, List.flatten_cons, Pos.afterAll_append]
      · rw [hstop, Pos.offset_afterAll, List.flatten_cons, List.append_assoc, byteCount_append cs,
          Nat.add_assoc]

end Layout

end StockFlow
