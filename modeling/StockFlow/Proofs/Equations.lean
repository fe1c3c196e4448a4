import StockFlow.Proofs.Equation.Printed
import StockFlow.Proofs.Printing

/-!
# A printed equation is read back

The text of a formula can stand behind any variable of any model. What is read there says the
formula again, however deeply it is nested, but for the signs of its constants: a negative constant
is read as the negation of its size.

* `Formula.parse_text` — the text of a formula is read, and says the formula
-/

namespace StockFlow

namespace Formula

/-- **A printed equation is read back.** The constants of the formula are finite, and the decimals
of their sizes are read back; its names are identifiers that mean neither the step nor pi. Then no
error is found in the text of the formula behind a variable, and what is read there says the
formula, with each negative constant as the negation of its size. -/
theorem parse_text {f : Formula Float} (hfinite : ∀ c ∈ f.constants, c.isFinite = true)
    (hread : ∀ c ∈ f.constants, Decimal.ofNumeral (Decimal.plain c.abs) = c.abs)
    (hnames : ∀ n ∈ f.names, IsPrinted n) {name x : String} (hname : Token.IsName name)
    (hx : Token.IsName x) :
    ∃ m span e, File.parse (assignment name x f.text) = ⟨none, [], [.model m], []⟩ ∧
      m.body.stmts = [⟨⟨x, none, none, span⟩, some e⟩] ∧ ofTree? e = some f.unsigned := by
  have hlexical := lexical_tree hfinite fun n hn => (hnames n hn).isName
  obtain ⟨m, hparse, hsets⟩ := File.parse_assignment (fits_tree hfinite) hlexical hname hx
  obtain ⟨span, e, hstmts, hsame⟩ := hsets.value
  rw [text_tree hfinite] at hparse
  refine ⟨m, span, e, hparse, hstmts, ?_⟩
  calc ofTree? e = ofTree? e.unplaced := (ofTree?_unplaced e).symm
    _ = ofTree? f.tree.unplaced := by rw [hsame]
    _ = ofTree? f.tree := ofTree?_unplaced f.tree
    _ = some f.unsigned := ofTree?_tree hfinite hread hnames

/-- A power to the left and one to the right of another, a difference to the right of a difference,
and constants of either sign: `-2.5`, `-0` and `0.1`. -/
def nested : Formula Float :=
  let power := binary .pow (binary .pow (const (Float.ofBits 0xC004000000000000)) pi)
    (binary .pow dt (const (Float.ofBits 0x8000000000000000)))
  let effect := lookup "effect"
    (apply2 .max (var "time") (const (Float.ofBits 0x3FB999999999999A)))
  binary .sub (var "level") (binary .sub (negate (binary .mul power (default "rate")))
    (binary .div effect (binary .add (negate (negate (var "level"))) (apply1 .exp (var "rate")))))

theorem parse_text_nested : nested.text = "level - (-((-2.5 ^ pi) ^ dt ^ -0 * default(rate)) - " ++
      "lookup(effect, max(time, 0.1)) / (--level + exp(rate)))" ∧
    ∃ m span e, File.parse (assignment "main" "x" nested.text) = ⟨none, [], [.model m], []⟩ ∧
      m.body.stmts = [⟨⟨"x", none, none, span⟩, some e⟩] ∧ ofTree? e = some nested.unsigned :=
  ⟨by decide +kernel, parse_text (by decide +kernel) (by decide +kernel) (by decide) (by decide)
    (by decide)⟩

end Formula

end StockFlow
