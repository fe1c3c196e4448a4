import StockFlow.Proofs.Token.Scan

/-!
# Texts that are taken apart whole

* `AsciiDigits` — a text without digits of other scripts, whose numbers are all plain
* `Tiling` — how tokens and gaps make up a text, and where terminators are put in
* `Scan.tiling_ofText` — the scanner takes a text apart like this if all numbers in it are plain
-/

namespace StockFlow

/-- All decimal digits of a text are those of ASCII. -/
def AsciiDigits (cs : List Char) : Prop := ∀ c ∈ cs, Text.isDecimalDigit c = true → c.toNat < 128

instance (cs : List Char) : Decidable (AsciiDigits cs) :=
  List.decidableBAll (fun c => Text.isDecimalDigit c = true → c.toNat < 128) cs

theorem AsciiDigits.of_append {cs ds : List Char} (h : AsciiDigits (cs ++ ds)) : AsciiDigits ds :=
  fun c hc => h c (List.mem_append_right cs hc)

/-- **How tokens and gaps make up a text** that starts at `pos`, where `ended` says whether a
statement may end there. -/
inductive Tiling : Bool → Pos → List Char → List Lexeme → Prop
  | done {pos : Pos} : Tiling false pos [] []
  /-- The end of the text ends a statement. -/
  | textEnd {pos : Pos} : Tiling true pos [] [⟨.terminator, pos, pos⟩]
  | gap {ended : Bool} {pos : Pos} {used rest : List Char} {ls : List Lexeme} : Gap used →
      GapStops used rest → (ended = true → '\n' ∉ used) →
      Tiling ended (pos.afterAll used) rest ls → Tiling ended pos (used ++ rest) ls
  | token {ended : Bool} {pos : Pos} {t : Token} {used rest : List Char} {ls : List Lexeme} :
      t.IsWritten used → used ≠ [] → used ≠ ['\n'] → t.StopsAt rest →
      Tiling t.endsValue (pos.afterAll used) rest ls →
      Tiling ended pos (used ++ rest) (⟨t, pos, pos.afterAll used⟩ :: ls)
  /-- The first line end in a gap ends a statement. -/
  | lineEnd {pos : Pos} {before after rest : List Char} {ls : List Lexeme} :
      Gap (before ++ '\n' :: after) → '\n' ∉ before →
      Tiling false (pos.afterAll (before ++ '\n' :: after)) rest ls →
      Tiling true pos (before ++ '\n' :: after ++ rest)
        (⟨.terminator, pos.afterAll before, (pos.afterAll before).shift 1⟩ :: ls)

namespace Scan

/-- Without digits of other scripts all numbers are plain. -/
theorem isPlain_of_asciiDigits {ended : Bool} {cur : Cursor} (h : AsciiDigits cur.rest) :
    ∀ l ∈ (scanFrom ended cur).lexemes, l.token.IsPlain := by
  fun_induction scanFrom ended cur with
  | case1 => exact fun l hl => List.mem_singleton.mp hl ▸ trivial
  | case2 => exact List.forall_mem_nil _
  | case3 ended c rest pos l next hstep ih =>
    have hmoves := @step_moves ended pos c rest
    rw [hstep] at hmoves
    cases hmoves with
    | token hreads _ _ _ hplain =>
      exact List.forall_mem_cons.mpr ⟨hplain, ih (hreads.rest ▸ h).of_append⟩
    | lineEnd _ hreads => exact List.forall_mem_cons.mpr ⟨trivial, ih (hreads.rest ▸ h).of_append⟩
    | lossy hmem hdigit hwide => exact absurd (h _ hmem hdigit) (Nat.not_lt_of_le hwide)
  | case4 ended c rest pos next hstep ih =>
    have hmoves := @step_moves ended pos c rest
    rw [hstep] at hmoves
    cases hmoves with
    | gap hreads => exact ih (hreads.rest ▸ h).of_append
  | case5 => exact List.forall_mem_nil _

theorem tiling_scanFrom {ended : Bool} {cur : Cursor} (hok : (scanFrom ended cur).error = none)
    (hplain : ∀ l ∈ (scanFrom ended cur).lexemes, l.token.IsPlain) :
    Tiling ended cur.pos cur.rest (scanFrom ended cur).lexemes := by
  fun_induction scanFrom ended cur with
  | case1 => exact .textEnd
  | case2 ended pos hended =>
    obtain rfl := Bool.eq_false_iff.mpr hended
    exact .done
  | case3 ended c rest pos l next hstep ih =>
    have hmoves := @step_moves ended pos c rest
    rw [hstep] at hmoves
    obtain ⟨hl, hmore⟩ := List.forall_mem_cons.mp hplain
    have htail := ih hok hmore
    cases hmoves with
    | token hreads hwritten hne hline _ hstops =>
      rw [hreads.pos] at htail ⊢
      rw [hreads.rest]
      exact .token hwritten hne hline hstops htail
    | lineEnd hended hreads hgap hbefore =>
      subst hended
      rw [hreads.pos] at htail
      rw [hreads.rest]
      exact .lineEnd hgap hbefore htail
    | lossy _ _ _ hwide => exact absurd hl hwide
  | case4 ended c rest pos next hstep ih =>
    have hmoves := @step_moves ended pos c rest
    rw [hstep] at hmoves
    have htail := ih hok hplain
    cases hmoves with
    | gap hreads hgap hstops hline =>
      rw [hreads.pos] at htail
      rw [hreads.rest]
      exact .gap hgap hstops hline htail
  | case5 => cases hok

/-- **The scanner takes a text apart whole** if all numbers in it are plain. -/
theorem tiling_ofText {text : String} (hok : (ofText text).error = none)
    (hplain : ∀ l ∈ (ofText text).lexemes, l.token.IsPlain) :
    Tiling false Pos.start text.toList (ofText text).lexemes :=
  tiling_scanFrom hok hplain

end Scan

end StockFlow
