import StockFlow.Proofs.Token.Tiling

/-!
# Where terminators are put in

* `Piece` — a token as it is written, with what stands behind it
* `inserted?` — where a terminator is put in
* `Tiling.exists_pieces` — a text that is taken apart whole is a row of such pieces
* `Scan.ofText_pieces` — and so is every text that is scanned without an error
-/

namespace StockFlow

/-- Blanks and comments, one behind the other. -/
inductive Gaps : List Char → Prop
  | nil : Gaps []
  | cons {gap cs : List Char} : Gap gap → Gaps cs → Gaps (gap ++ cs)

/-- A token as it is written, with what stands between it and the next. -/
structure Piece where
  token : Token
  text : List Char
  gap : List Char

/-- The token of a piece is written so, and not put in, and there are only blanks and comments
behind it. -/
structure Piece.Fits (p : Piece) : Prop where
  written : p.token.IsWritten p.text
  ne_nil : p.text ≠ []
  ne_lineEnd : p.text ≠ ['\n']
  gaps : Gaps p.gap

/-- The terminator that is put in at a gap that starts at `pos`: at the first line end of the gap,
or else at the end of the text. -/
def terminatorIn (pos : Pos) (gap : List Char) : Lexeme :=
  ⟨.terminator, (Scan.lineEnd? pos gap).getD ⟨pos.afterAll gap, pos.afterAll gap⟩⟩

/-- **Where a terminator is put in:** where a value ends, if the gap behind it has a line end in it
or nothing is written behind the gap. -/
def inserted? (ended : Bool) (pos : Pos) (gap : List Char) (last : Bool) : Option Lexeme :=
  if ended = true ∧ ('\n' ∈ gap ∨ last = true) then some (terminatorIn pos gap) else none

/-- The tokens of pieces that start at `pos`, with the terminators that are put in. -/
def Piece.lexemes (pos : Pos) : List Piece → List Lexeme
  | [] => []
  | p :: ps =>
    let stop := pos.afterAll p.text
    ⟨p.token, pos, stop⟩ :: ((inserted? p.token.endsValue stop p.gap ps.isEmpty).toList ++
      lexemes (stop.afterAll p.gap) ps)

section

variable {ended last : Bool} {pos : Pos} {cs gap : List Char}

@[simp] theorem inserted?_false : inserted? false pos gap last = none := by simp [inserted?]

@[simp] theorem inserted?_nil : inserted? ended pos [] false = none := by simp [inserted?]

/-- A gap that ends no statement can be left out in front of another. -/
theorem inserted?_append (h : ended = true → '\n' ∉ cs) :
    inserted? ended pos (cs ++ gap) last = inserted? ended (pos.afterAll cs) gap last := by
  cases ended with
  | false => rw [inserted?_false, inserted?_false]
  | true =>
    have hcs := h rfl
    simp [inserted?, terminatorIn, Scan.lineEnd?_append hcs, Pos.afterAll_append, hcs]

theorem inserted?_lineEnd {before after : List Char} (h : '\n' ∉ before) :
    inserted? true pos (before ++ '\n' :: after) last =
      some ⟨.terminator, pos.afterAll before, (pos.afterAll before).shift 1⟩ := by
  rw [inserted?_append fun _ => h]
  simp [inserted?, terminatorIn, Scan.lineEnd?_cons]

end

/-- **A text that is taken apart whole is a row of pieces.** -/
theorem Tiling.exists_pieces {ended : Bool} {pos : Pos} {cs : List Char} {ls : List Lexeme}
    (h : Tiling ended pos cs ls) : ∃ lead ps, cs = lead ++ ps.flatMap (fun p => p.text ++ p.gap) ∧
      Gaps lead ∧ (∀ p ∈ ps, p.Fits) ∧
      ls = (inserted? ended pos lead ps.isEmpty).toList ++
        Piece.lexemes (pos.afterAll lead) ps := by
  induction h with
  | done => exact ⟨[], [], rfl, .nil, nofun, rfl⟩
  | textEnd => exact ⟨[], [], rfl, .nil, nofun, rfl⟩
  | @gap ended pos used rest ls hgap _ hline _ ih =>
    obtain ⟨lead, ps, rfl, hlead, hps, rfl⟩ := ih
    refine ⟨used ++ lead, ps, by simp, .cons hgap hlead, hps, ?_⟩
    rw [inserted?_append hline, Pos.afterAll_append]
  | @token ended pos t used rest ls hwritten hne hline _ _ ih =>
    obtain ⟨gap, ps, rfl, hgap, hps, rfl⟩ := ih
    refine ⟨[], ⟨t, used, gap⟩ :: ps, by simp, .nil, ?_, ?_⟩
    · exact List.forall_mem_cons.mpr ⟨⟨hwritten, hne, hline, hgap⟩, hps⟩
    · rw [List.isEmpty_cons, inserted?_nil]
      rfl
  | @lineEnd pos before after rest ls hgap hbefore _ ih =>
    obtain ⟨lead, ps, rfl, hlead, hps, rfl⟩ := ih
    refine ⟨(before ++ '\n' :: after) ++ lead, ps, by simp, .cons hgap hlead, hps, ?_⟩
    rw [List.append_assoc, List.cons_append, inserted?_lineEnd hbefore, inserted?_false]
    simp [Pos.afterAll_append]

/-- **Terminators follow one rule.** A text without digits of other scripts, in which the scanner
finds no error, is a row of tokens with blanks and comments between them. Its tokens are those that
are written, each where it stands, and just behind each that ends a value, if a line end stands
between it and the next or it is the last, one terminator. -/
theorem Scan.ofText_pieces {text : String} (hascii : AsciiDigits text.toList)
    (hok : (ofText text).error = none) :
    ∃ lead ps, text.toList = lead ++ ps.flatMap (fun p => p.text ++ p.gap) ∧ Gaps lead ∧
      (∀ p ∈ ps, p.Fits) ∧ (ofText text).lexemes = Piece.lexemes (Pos.start.afterAll lead) ps := by
  obtain ⟨lead, ps, htext, hlead, hps, hlexemes⟩ :=
    (tiling_ofText hok (isPlain_of_asciiDigits hascii)).exists_pieces
  exact ⟨lead, ps, htext, hlead, hps, hlexemes⟩

/-- A text with line ends behind values and operators, in comments and between them. -/
def endings : String := "a = b +\n c // sum\n\n/* more\n */ d(1\n) ; e"

theorem Scan.ofText_pieces_endings : AsciiDigits endings.toList ∧ (ofText endings).error = none ∧
    ∃ lead ps, endings.toList = lead ++ ps.flatMap (fun p => p.text ++ p.gap) ∧ Gaps lead ∧
      (∀ p ∈ ps, p.Fits) ∧
      (ofText endings).lexemes = Piece.lexemes (Pos.start.afterAll lead) ps := by
  have hascii : AsciiDigits endings.toList := by decide +kernel
  have hok : (ofText endings).error = none := by decide +kernel
  exact ⟨hascii, hok, ofText_pieces hascii hok⟩

end StockFlow
