import StockFlow.Proofs.Double.Order

/-!
# Halves of doubles

* `moderate_roundWithAccuracy` — rounding adds one to the exponent at most
* `isFinite_half` — half of a finite double is finite
* `exists_level_add` — a finite double can be added to any number
-/

namespace StockFlow.Doubles

open Float.Model Float.Model.UnpackedFloat

/-! ## Exponents that are not too large -/

/-- The exponent is not one that packing makes infinite. -/
def Moderate : UnpackedFloat → Prop
  | .notANumber => False
  | .infinity _ => False
  | .zero _ => True
  | .finite _ _ e _ => e ≤ 971

/-- **What has a moderate exponent stays finite when it is packed.** -/
theorem isFinite_unpack_pack {u : UnpackedFloat} (h : Moderate u) :
    (UnpackedFloat.unpack .binary64 (UnpackedFloat.pack .binary64 u)).isFinite = true := by
  have hparts : ∀ (s : Sign) (e : BitVec 11) (m : BitVec 52), e ≠ -1#11 →
      (ofParts s e m).isFinite = true := by
    intro s e m he
    rw [ofParts, if_neg he]
    by_cases hzero : e = 0#11
    · rw [if_pos hzero]
      by_cases hm : m = 0#52
      · rw [dif_pos hm]
        rfl
      · rw [dif_neg hm]
        rfl
    · rw [if_neg hzero]
      rfl
  cases u with
  | notANumber | infinity s => exact h.elim
  | zero s => cases s <;> rfl
  | finite s m e hm =>
    have he : e ≤ 971 := h
    rw [pack_finite, if_neg (by omega)]
    split_ifs
    · rw [unpack_packComponents]
      refine hparts s _ _ fun hones => ?_
      have htoNat := congrArg BitVec.toNat hones
      rw [BitVec.toNat_ofNat, show (-1#11).toNat = 2047 from rfl] at htoNat
      omega
    · rw [unpack_packComponents]
      exact hparts s _ _ (by decide)

theorem mantissa_shiftRight (em : ExtendedMantissa) (n : Nat) :
    (em >>> n).mantissa = em.mantissa / 2 ^ n := by
  show (n.repeat ExtendedMantissa.shiftRightOne em).mantissa = _
  induction n with
  | zero => rw [Nat.pow_zero, Nat.div_one]; rfl
  | succ n ih =>
    rw [Nat.repeat, ExtendedMantissa.shiftRightOne, ih, Nat.div_div_eq_div_mul, Nat.pow_succ]

theorem mantissa_ofMantissaAndAccuracy (m : Nat) (acc : Accuracy) :
    (ExtendedMantissa.ofMantissaAndAccuracy m acc).mantissa = m := by
  cases acc with
  | exact => rfl
  | inexact o => cases o <;> rfl

theorem roundedMantissa_le (em : ExtendedMantissa) : em.roundedMantissa ≤ em.mantissa + 1 := by
  rcases em with ⟨m, _ | _, _ | _⟩ <;>
    simp only [ExtendedMantissa.roundedMantissa, ExtendedMantissa.accuracy,
      Accuracy.roundToNearestEven] <;> omega

/-- A shift goes to the exponent that the number needs, if that is larger. -/
theorem shiftToTargetExponent_eq (m : Nat) (e : Int) (acc : Accuracy) :
    (shiftToTargetExponent .binary64 m e acc).2 =
        max e (max ((m.log2 : Int) + 1 + e - 53) (-1074)) ∧
      (shiftToTargetExponent .binary64 m e acc).1.mantissa =
        m / 2 ^ ((shiftToTargetExponent .binary64 m e acc).2 - e).toNat := by
  have htarget := targetExponent_eq (totalExponent m e)
  rw [totalExponent] at htarget
  unfold shiftToTargetExponent shiftToExponent
  simp only [mantissa_shiftRight, mantissa_ofMantissaAndAccuracy]
  rw [totalExponent, htarget]
  exact ⟨by omega, by congr 2; omega⟩

theorem log2_lt_of_lt {m n : Nat} (hn : 0 < n) (h : m < 2 ^ n) : m.log2 < n := by
  rcases Nat.eq_zero_or_pos m with rfl | hm
  · simpa using hn
  · exact (Nat.log2_lt hm.ne').mpr h

/-- **Rounding adds one to the exponent at most.** -/
theorem moderate_roundWithAccuracy (s : Sign) {m : Nat} {e : Int} (acc : Accuracy) (he : e ≤ 970)
    (hm : m < 2 ^ (1023 - e).toNat) : Moderate (roundWithAccuracy .binary64 s m e acc) := by
  obtain ⟨r, hr⟩ : ∃ r, r = shiftToTargetExponent .binary64 m e acc := ⟨_, rfl⟩
  obtain ⟨hexp, hmant⟩ := shiftToTargetExponent_eq m e acc
  rw [← hr] at hexp hmant
  have hlog := log2_lt_of_lt (by omega) hm
  have hle : r.2 ≤ 970 := by omega
  -- the digits that are left, with room for one more if rounding up needs it
  have hcut : r.1.mantissa < 2 ^ (1023 - r.2).toNat := by
    rw [hmant, Nat.div_lt_iff_lt_mul (Nat.two_pow_pos _), ← Nat.pow_add]
    exact hm.trans_le (Nat.pow_le_pow_right Nat.two_pos (by omega))
  have hround : r.1.roundedMantissa < 2 ^ ((1023 - r.2).toNat + 1) := by
    have := roundedMantissa_le r.1
    rw [Nat.pow_succ]
    omega
  have hlog' := log2_lt_of_lt (Nat.succ_pos _) hround
  obtain ⟨hexp', -⟩ := shiftToTargetExponent_eq r.1.roundedMantissa r.2 .exact
  rw [roundWithAccuracy_eq_assemble, ← hr]
  rcases Nat.eq_zero_or_pos
    (shiftToTargetExponent .binary64 r.1.roundedMantissa r.2 .exact).1.mantissa with hzero | hpos
  · rw [assemble_of_zero s hzero]
    trivial
  · unfold assemble
    rw [dif_neg hpos.ne']
    show _ ≤ (971 : Int)
    omega

/-! ## Halves -/

variable {x y : Float}

theorem unpack_two :
    (2 : Float).toModel.unpack = .finite .positive (2 ^ 52) (-51) (by decide) := rfl

/-- **Half of a finite double is finite.** -/
theorem isFinite_half (h : x.isFinite = true) : (x / 2).isFinite = true := by
  have hfits := fits x
  change x.toModel.unpack.isFinite = true at h
  show (UnpackedFloat.unpack .binary64 (UnpackedFloat.pack .binary64
    (UnpackedFloat.div .binary64 x.toModel.unpack (2 : Float).toModel.unpack))).isFinite = true
  rw [unpack_two]
  refine isFinite_unpack_pack ?_
  cases hu : x.toModel.unpack with
  | notANumber => rw [hu] at h; cases h
  | infinity s => rw [hu] at h; cases h
  | zero s => trivial
  | finite s m e hm =>
    rw [hu] at hfits
    obtain ⟨⟨hlt, hmin, -⟩, hmax⟩ := hfits
    have htwo : (Nat.log2 (2 ^ 52) : Int) = 52 := by rw [Nat.log2_two_pow]; rfl
    have hlog := log2_lt_of_lt (by decide) hlt
    have htarget := targetExponent_eq (totalExponent m e - totalExponent (2 ^ 52) (-51))
    rw [totalExponent, totalExponent, htwo] at htarget
    obtain ⟨t, ht⟩ : ∃ t, t = min (e - -51) (Format.binary64.targetExponent
      (totalExponent m e - totalExponent (2 ^ 52) (-51))) := ⟨_, rfl⟩
    have hte : t ≤ 970 := by rw [ht, totalExponent, totalExponent, htwo, htarget]; omega
    have hte' : t ≤ e + 51 := by rw [ht]; omega
    have hquot : m <<< (e - -51 - t).toNat / 2 ^ 52 < 2 ^ (1023 - t).toNat := by
      rw [Nat.div_lt_iff_lt_mul (Nat.two_pow_pos _), Nat.shiftLeft_eq, ← Nat.pow_add]
      calc
        m * 2 ^ (e - -51 - t).toNat < 2 ^ 53 * 2 ^ (e - -51 - t).toNat :=
          Nat.mul_lt_mul_of_pos_right hlt (Nat.two_pow_pos _)
        _ = 2 ^ (53 + (e - -51 - t).toNat) := (Nat.pow_add ..).symm
        _ ≤ 2 ^ ((1023 - t).toNat + 52) := Nat.pow_le_pow_right Nat.two_pos (by omega)
    show Moderate (roundWithAccuracy .binary64 (s / .positive) _ _ _)
    rw [← ht]
    exact moderate_roundWithAccuracy _ _ hte hquot

/-! ## Sums that are numbers -/

theorem exists_level_of_isNaN (h : x.isNaN = false) : ∃ a, level? x = some a := by
  change x.toModel.unpack.isNaN = false at h
  show ∃ a, level x.toModel.unpack = some a
  cases hu : x.toModel.unpack with
  | notANumber => rw [hu] at h; cases h
  | infinity s | zero s | finite s m e hm => exact ⟨_, rfl⟩

/-- **A finite double can be added to any number.** -/
theorem exists_level_add (hx : x.isNaN = false) (hy : y.isFinite = true) :
    ∃ a, level? (x + y) = some a := by
  obtain ⟨a, ha⟩ := exists_level_of_isNaN hx
  obtain ⟨b, hb, hblow, hbhigh⟩ := exists_level_of_isFinite hy
  show ∃ c, level (UnpackedFloat.unpack .binary64 (UnpackedFloat.pack .binary64
    (UnpackedFloat.add .binary64 x.toModel.unpack y.toModel.unpack))) = some c
  by_cases hfin : x.isFinite = true
  · obtain ⟨a', ha', halow, hahigh⟩ := exists_level_of_isFinite hfin
    obtain ⟨hcanon, hlevel⟩ :=
      add_exact_of_finite (fits x) (fits y) ha' hb halow hahigh hblow hbhigh
    exact ⟨_, (level_unpack_pack hcanon).trans hlevel⟩
  · -- an infinite double stays what it is
    change x.toModel.unpack.isNaN = false at hx
    change ¬x.toModel.unpack.isFinite = true at hfin
    change y.toModel.unpack.isFinite = true at hy
    cases hu : x.toModel.unpack with
    | notANumber => rw [hu] at hx; cases hx
    | zero s => rw [hu] at hfin; exact absurd rfl hfin
    | finite s m e hm => rw [hu] at hfin; exact absurd rfl hfin
    | infinity s =>
      have hsum : UnpackedFloat.add .binary64 (.infinity s) y.toModel.unpack = .infinity s := by
        cases hv : y.toModel.unpack with
        | notANumber => rw [hv] at hy; cases hy
        | infinity s' => rw [hv] at hy; cases hy
        | zero s' | finite s' m e hm => rfl
      rw [hsum]
      exact ⟨_, level_unpack_pack (u := .infinity s) trivial⟩

end StockFlow.Doubles
