import StockFlow.Proofs.Decimal.Written

/-!
# Six decimals

* `Decimal.withPoint_eq` — behind the point there are always six digits
* `Decimal.fixed_cases` — the text of a double in a report
* `Decimal.fixed_clean` — it has no tab and no newline in it
-/

namespace StockFlow.Decimal

open Number (Digits)

/-- **Behind the point there are always six digits.** -/
theorem withPoint_eq (units : Nat) : ∃ fraction,
    withPoint units = digitsOf (units / unitsInOne) ++ '.' :: fraction ∧
      fraction.length = places ∧ Digits fraction := by
  refine ⟨List.replicate (places - (digitsOf (units % unitsInOne)).length) '0' ++
    digitsOf (units % unitsInOne), List.append_assoc .., ?_, List.forall_mem_append.mpr
    ⟨digits_replicate _, digits_digitsOf _⟩⟩
  have hle : (digitsOf (units % unitsInOne)).length ≤ places :=
    (Nat.length_toDigits_le_iff (by decide) (by decide)).mpr (Nat.mod_lt _ (by decide))
  rw [List.length_append, List.length_replicate, Nat.sub_add_cancel hle]

/-- The text of a double in a report: `NaN`, or behind a minus sign, if it has one, `inf` or digits
with a point and six digits. -/
theorem fixed_cases (x : Float) :
    fixed x = "NaN" ∨ ∃ negative text, fixed x = signed negative text ∧
      (text = "inf".toList ∨ ∃ whole fraction, text = whole ++ '.' :: fraction ∧ whole ≠ [] ∧
        Digits whole ∧ fraction.length = places ∧ Digits fraction) := by
  unfold fixed
  cases Binary64.decode x with
  | nan => exact Or.inl rfl
  | infinite negative => exact Or.inr ⟨negative, _, rfl, Or.inl rfl⟩
  | finite negative m q =>
    obtain ⟨fraction, heq, hlength, hdigits⟩ :=
      withPoint_eq (roundDiv (m * unitsInOne * Binary64.scaleUp q) (Binary64.scaleDown q) .toEven)
    exact Or.inr ⟨negative, _, rfl, Or.inr ⟨_, fraction, heq, Nat.toDigits_ne_nil,
      digits_digitsOf _, hlength, hdigits⟩⟩

theorem digit_clean {c : Char} (h : c.isDigit = true) : c ≠ '\t' ∧ c ≠ '\n' := by
  constructor <;>
  · rintro rfl
    exact absurd h (by decide)

/-- The text of a double in a report has no tab and no newline in it. -/
theorem fixed_clean (x : Float) : ∀ c ∈ (fixed x).toList, c ≠ '\t' ∧ c ≠ '\n' := by
  obtain heq | ⟨negative, text, heq, htext⟩ := fixed_cases x
  · rw [heq]
    simp
  · have hclean : ∀ c ∈ text, c ≠ '\t' ∧ c ≠ '\n' := by
      obtain rfl | ⟨whole, fraction, rfl, _, hwhole, _, hfraction⟩ := htext
      · simp
      · refine List.forall_mem_append.mpr ⟨fun c hc => digit_clean (hwhole c hc), ?_⟩
        exact List.forall_mem_cons.mpr ⟨by decide, fun c hc => digit_clean (hfraction c hc)⟩
    rw [heq, signed, String.toList_ofList]
    cases negative with
    | true => exact List.forall_mem_cons.mpr ⟨by decide, hclean⟩
    | false => exact hclean

end StockFlow.Decimal
