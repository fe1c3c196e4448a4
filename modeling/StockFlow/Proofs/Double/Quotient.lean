import StockFlow.Proofs.Double.Half

/-!
# Quotients that are numbers

* `isNaN_unpack_pack` — packing a number gives a number
* `isNaN_div` — a finite double can be divided by a positive one
-/

namespace StockFlow.Doubles

open Float.Model Float.Model.UnpackedFloat

variable {x y : Float}

/-- **Packing a number gives a number:** what is too large becomes infinite. -/
theorem isNaN_unpack_pack {u : UnpackedFloat} (h : u.isNaN = false) :
    (UnpackedFloat.unpack .binary64 (UnpackedFloat.pack .binary64 u)).isNaN = false := by
  cases u with
  | notANumber => cases h
  | infinity s | zero s => cases s <;> rfl
  | finite s m e hm =>
    by_cases he : e ≤ 971
    · have hfinite := isFinite_unpack_pack (u := .finite s m e hm) he
      cases hu : UnpackedFloat.unpack .binary64
          (UnpackedFloat.pack .binary64 (.finite s m e hm)) with
      | notANumber => rw [hu] at hfinite; cases hfinite
      | infinity | zero | finite => rfl
    · rw [unpack_pack_of_lt hm (by omega)]
      rfl

/-- Rounding gives a number. -/
theorem isNaN_roundWithAccuracy (s : Sign) (m : Nat) (e : Int) (acc : Accuracy) :
    (roundWithAccuracy .binary64 s m e acc).isNaN = false := by
  rw [roundWithAccuracy_eq_assemble]
  generalize shiftToTargetExponent .binary64 _ _ .exact = r
  rcases Nat.eq_zero_or_pos r.1.mantissa with hzero | hpos
  · rw [assemble_of_zero s hzero]
    rfl
  · rw [assemble_of_pos s rfl rfl hpos]
    rfl

/-- A positive double that is finite has a significand. -/
theorem exists_unpack_of_pos (hpos : 0 < y) (hy : y.isFinite = true) :
    ∃ s m e hm, y.toModel.unpack = .finite s m e hm := by
  obtain ⟨a, b, ha, hb, hlt⟩ := exists_level_of_lt hpos
  cases ha.symm.trans level_zero
  change y.toModel.unpack.isFinite = true at hy
  change level y.toModel.unpack = some b at hb
  cases hu : y.toModel.unpack with
  | notANumber | infinity => rw [hu] at hy; cases hy
  | zero =>
    rw [hu] at hb
    cases hb
    exact absurd hlt (lt_irrefl 0)
  | finite s m e hm => exact ⟨s, m, e, hm, rfl⟩

/-- **A finite double can be divided by a positive one.** The quotient may be infinite. -/
theorem isNaN_div (hx : x.isFinite = true) (hpos : 0 < y) (hy : y.isFinite = true) :
    (x / y).isNaN = false := by
  obtain ⟨s', m', e', hm', hv⟩ := exists_unpack_of_pos hpos hy
  change x.toModel.unpack.isFinite = true at hx
  show (UnpackedFloat.unpack .binary64 (UnpackedFloat.pack .binary64
    (UnpackedFloat.div .binary64 x.toModel.unpack y.toModel.unpack))).isNaN = false
  rw [hv]
  refine isNaN_unpack_pack ?_
  cases hu : x.toModel.unpack with
  | notANumber | infinity => rw [hu] at hx; cases hx
  | zero => rfl
  | finite s m e hm =>
    show (roundWithAccuracy .binary64 (s / s') _ _ _).isNaN = false
    exact isNaN_roundWithAccuracy ..

end StockFlow.Doubles
