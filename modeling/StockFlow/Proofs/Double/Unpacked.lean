import StockFlow.Proofs.Decimal.Rounding

/-!
# Rounding of unpacked doubles

Every finite double is a whole multiple of the smallest one. That multiple is its level; infinities
are given the level of the first power of two that is too large.

* `level` — the level of an unpacked double
* `roundWithAccuracy_exact` — what the rounding of doubles does to levels
* `normalize_exact` — so also that of a signed number
-/

namespace StockFlow.Doubles

open Float.Model Float.Model.UnpackedFloat Decimal

/-! ## Cutting digits off -/

/-- A mantissa without its last `n` digits, with what rounding has to know about them. -/
def cut (m n : Nat) : ExtendedMantissa where
  mantissa := m / 2 ^ n
  roundBit := decide (2 ^ n ≤ 2 * (m % 2 ^ n))
  stickyBit := decide (2 * (m % 2 ^ n) % 2 ^ n ≠ 0)

theorem cut_zero (m : Nat) : cut m 0 = .ofMantissaAndAccuracy m .exact := by
  unfold cut
  simp only [Nat.pow_zero, Nat.div_one, Nat.mod_one, ExtendedMantissa.ofMantissaAndAccuracy]
  rfl

theorem shiftRightOne_cut (m n : Nat) : (cut m n).shiftRightOne = cut m (n + 1) := by
  have hmod : m % 2 ^ (n + 1) = m % 2 ^ n + 2 ^ n * (m / 2 ^ n % 2) := Nat.mod_pow_succ
  have hlt : m % 2 ^ n < 2 ^ n := Nat.mod_lt _ (Nat.two_pow_pos n)
  have hpow : 2 ^ (n + 1) = 2 * 2 ^ n := by rw [Nat.pow_succ, Nat.mul_comm]
  -- the last digit becomes the round bit, and the old round bit joins the sticky one
  unfold cut ExtendedMantissa.shiftRightOne
  simp only [ExtendedMantissa.mk.injEq]
  refine ⟨?_, ?_, ?_⟩
  · rw [Nat.div_div_eq_div_mul, Nat.pow_succ]
  · rw [hmod, hpow]
    rcases Nat.mod_two_eq_zero_or_one (m / 2 ^ n) with h | h
    · simp [h, hlt]
    · simp only [h, Nat.mul_one]
      exact (decide_eq_true (by omega)).symm
  · have htwice : 2 * (m % 2 ^ (n + 1)) % 2 ^ (n + 1) = 2 * (m % 2 ^ n) := by
      rw [hmod, hpow, Nat.mul_mod_mul_left, Nat.add_mul_mod_self_left, Nat.mod_eq_of_lt hlt]
    rw [htwice, ← Bool.decide_or]
    refine decide_eq_decide.mpr ⟨?_, ?_⟩
    · intro h
      rcases h with h | h
      · have := Nat.two_pow_pos n
        omega
      · intro h'
        exact h (by rw [h', Nat.zero_mod])
    · intro h
      by_cases hle : 2 ^ n ≤ 2 * (m % 2 ^ n)
      · exact Or.inl hle
      · exact Or.inr (by rwa [Nat.mod_eq_of_lt (by omega)])

theorem shiftRight_exact (m n : Nat) :
    ExtendedMantissa.ofMantissaAndAccuracy m .exact >>> n = cut m n := by
  show n.repeat ExtendedMantissa.shiftRightOne _ = cut m n
  induction n with
  | zero => exact (cut_zero m).symm
  | succ n ih => rw [Nat.repeat, ih, shiftRightOne_cut]

/-- **The digits that were cut off round to the nearest number.** -/
theorem roundedMantissa_cut (m n : Nat) :
    (cut m n).roundedMantissa = roundDiv m (2 ^ n) .toEven := by
  have hlt : m % 2 ^ n < 2 ^ n := Nat.mod_lt _ (Nat.two_pow_pos n)
  have hmod : 2 ^ n ≤ 2 * (m % 2 ^ n) → 2 * (m % 2 ^ n) % 2 ^ n = 2 * (m % 2 ^ n) - 2 ^ n :=
    fun h => by rw [Nat.mod_eq_sub_mod h, Nat.mod_eq_of_lt (by omega)]
  unfold ExtendedMantissa.roundedMantissa ExtendedMantissa.accuracy cut roundDiv
  by_cases hround : 2 ^ n ≤ 2 * (m % 2 ^ n)
  · by_cases hsticky : 2 * (m % 2 ^ n) % 2 ^ n = 0
    · rw [hmod hround] at hsticky
      simp only [hround, hmod hround, hsticky, decide_true, ne_eq, not_true_eq_false, decide_false,
        Accuracy.roundToNearestEven]
      split_ifs <;> omega
    · have hgt : 2 ^ n < 2 * (m % 2 ^ n) := by
        rw [hmod hround] at hsticky
        omega
      simp only [hround, hsticky, decide_true, ne_eq, not_false_eq_true, hgt,
        Accuracy.roundToNearestEven]
      split_ifs <;> omega
  · have hround' : decide (2 ^ n ≤ 2 * (m % 2 ^ n)) = false := decide_eq_false hround
    rw [if_pos (by omega), hround']
    cases decide (2 * (m % 2 ^ n) % 2 ^ n ≠ 0) <;> rfl

theorem shiftToExponent_exact (m : Nat) (e t : Int) :
    shiftToExponent m e .exact t = (cut m (t - e).toNat, max e t) := by
  unfold shiftToExponent
  simp only [shiftRight_exact]
  simp only [Prod.mk.injEq, true_and]
  omega

/-! ## Levels -/

/-- How many digits the level of a finite double has at most. -/
def levelDigits : Nat := 2098

/-- The level of infinity, that of `2 ^ 1024`. -/
def topLevel : Int := (2 ^ levelDigits : Nat)

/-- **The level of an unpacked double:** how many times the smallest double it is. -/
def level : UnpackedFloat → Option Int
  | .notANumber => none
  | .infinity s => some (s.apply topLevel)
  | .zero _ => some 0
  | .finite s m e _ => some (s.apply (m * 2 ^ (e + 1074).toNat))

/-- The significand has all its digits, or the double is one of the smallest. -/
def Canonical : UnpackedFloat → Prop
  | .finite _ m e _ => m < 2 ^ 53 ∧ -1074 ≤ e ∧ (2 ^ 52 ≤ m ∨ e = -1074)
  | _ => True

theorem targetExponent_eq (t : Int) : Format.binary64.targetExponent t = max (t - 53) (-1074) := rfl

theorem level_infinity (s : Sign) : level (.infinity s) = some (s.apply topLevel) := rfl

theorem level_finite {s : Sign} {m : Nat} {e : Int} (hm : 0 < m) :
    level (.finite s m e hm) = some (s.apply (m * 2 ^ (e + 1074).toNat)) := rfl

/-- An unpacked double of a significand that may be zero. -/
def assemble (s : Sign) (r : ExtendedMantissa × Int) : UnpackedFloat :=
  if h : r.1.mantissa = 0 then .zero s else .finite s r.1.mantissa r.2 (Nat.pos_of_ne_zero h)

/-- The last step of rounding: a significand that came to have one digit too many is shifted once
more. -/
theorem roundWithAccuracy_eq_assemble (s : Sign) (m : Nat) (e : Int) (acc : Accuracy) :
    roundWithAccuracy .binary64 s m e acc =
      assemble s (shiftToTargetExponent .binary64
        (shiftToTargetExponent .binary64 m e acc).1.roundedMantissa
        (shiftToTargetExponent .binary64 m e acc).2 .exact) := rfl

theorem finite_congr (s : Sign) {m m' : Nat} {e e' : Int} {hm : 0 < m} {hm' : 0 < m'} (h : m = m')
    (he : e = e') : UnpackedFloat.finite s m e hm = .finite s m' e' hm' := by
  subst h he
  rfl

theorem assemble_of_zero (s : Sign) {r : ExtendedMantissa × Int} (h : r.1.mantissa = 0) :
    assemble s r = .zero s :=
  dif_pos h

theorem assemble_of_pos (s : Sign) {r : ExtendedMantissa × Int} {m : Nat} {e : Int}
    (hm : r.1.mantissa = m) (he : r.2 = e) (hpos : 0 < m) :
    assemble s r = .finite s m e hpos := by
  unfold assemble
  rw [dif_neg (by omega)]
  exact finite_congr s hm he

theorem shiftToTargetExponent_exact {q : Nat} {t : Int} (ht : -1074 ≤ t) (hq : q ≤ 2 ^ 53) :
    shiftToTargetExponent .binary64 q t .exact =
      if q < 2 ^ 53 then (cut q 0, t) else (cut q 1, t + 1) := by
  unfold shiftToTargetExponent
  rw [shiftToExponent_exact, targetExponent_eq, totalExponent]
  split_ifs with hlt
  · have hlog : q.log2 < 53 := by
      by_cases hz : q = 0
      · rw [hz]
        decide
      · exact (Nat.log2_lt hz).mpr hlt
    have hle : max ((q.log2 : Int) + 1 + t - 53) (-1074) ≤ t := by omega
    rw [Int.max_eq_left hle, Int.toNat_of_nonpos (by omega)]
  · obtain rfl : q = 2 ^ 53 := by omega
    have htarget : max ((Nat.log2 (2 ^ 53) : Int) + 1 + t - 53) (-1074) = t + 1 := by
      rw [Nat.log2_two_pow]
      omega
    have hone : (t + 1 - t).toNat = 1 := by omega
    rw [htarget, hone, Int.max_eq_right (by omega)]

theorem assemble_exact (s : Sign) {q : Nat} {t : Int} (ht : -1074 ≤ t) (hq : q ≤ 2 ^ 53)
    (hfit : 2 ^ 52 ≤ q ∨ t = -1074) :
    Canonical (assemble s (shiftToTargetExponent .binary64 q t .exact)) ∧
      level (assemble s (shiftToTargetExponent .binary64 q t .exact)) =
        some (s.apply (q * 2 ^ (t + 1074).toNat)) := by
  rw [shiftToTargetExponent_exact ht hq]
  by_cases hlt : q < 2 ^ 53
  · rw [if_pos hlt, cut_zero]
    by_cases hz : q = 0
    · rw [assemble_of_zero s hz, hz]
      refine ⟨trivial, congrArg some ?_⟩
      cases s <;> simp [Sign.apply]
    · rw [assemble_of_pos s rfl rfl (Nat.pos_of_ne_zero hz)]
      exact ⟨⟨hlt, ht, hfit⟩, rfl⟩
  · -- rounding up has led to a power of two, and its last digit is zero
    obtain rfl : q = 2 ^ 53 := by omega
    have hhalf : (cut (2 ^ 53) 1).mantissa = 2 ^ 52 := by
      show 2 ^ 53 / 2 ^ 1 = 2 ^ 52
      norm_num
    rw [if_neg hlt, assemble_of_pos s hhalf rfl (Nat.two_pow_pos 52)]
    refine ⟨⟨Nat.pow_lt_pow_right (by decide) (by decide), by omega, Or.inl le_rfl⟩, ?_⟩
    have hexp : (t + 1 + 1074).toNat = (t + 1074).toNat + 1 := by omega
    rw [level_finite, hexp, pow_succ]
    congr 2
    push_cast
    ring

theorem log2_mul_two_pow {m : Nat} (hm : 0 < m) (k : Nat) : (m * 2 ^ k).log2 = m.log2 + k := by
  induction k with
  | zero => rw [Nat.pow_zero, Nat.mul_one, Nat.add_zero]
  | succ k ih =>
    have hne : m * 2 ^ k ≠ 0 := (Nat.mul_pos hm (Nat.two_pow_pos k)).ne'
    rw [Nat.pow_succ, ← Nat.mul_assoc, Nat.log2_eq_log_two, Nat.log_mul_base (by decide) hne,
      ← Nat.log2_eq_log_two, ih, Nat.add_assoc]

/-- **Rounding goes to the nearest level,** and the result has the form that packing needs. -/
theorem round_exact (s : Sign) {m : Nat} {e : Int} (hm : 0 < m) (he : -1074 ≤ e) :
    Canonical (round .binary64 s m e) ∧
      level (round .binary64 s m e) = some (s.apply (rounded (m * 2 ^ (e + 1074).toNat))) := by
  obtain ⟨t, ht⟩ : ∃ t, t = Format.binary64.targetExponent (totalExponent m e) := ⟨_, rfl⟩
  have htarget := ht
  rw [targetExponent_eq, totalExponent] at htarget
  -- The significand is first spread out, so that only digits are cut off from then on.
  obtain ⟨m', hm'⟩ : ∃ m', m' = m * 2 ^ (e - t).toNat := ⟨_, rfl⟩
  obtain ⟨e', he'⟩ : ∃ e', e' = min e t := ⟨_, rfl⟩
  have hspread : decreaseExponent m e t = (m', e') := by
    unfold decreaseExponent
    simp only [Nat.shiftLeft_eq, Prod.mk.injEq, hm', he', true_and]
    omega
  have hnumber : m * 2 ^ (e + 1074).toNat = m' * 2 ^ (e' + 1074).toNat := by
    rw [hm', Nat.mul_assoc, ← Nat.pow_add]
    congr 2
    omega
  have hexcess : excess (m * 2 ^ (e + 1074).toNat) = (t - e').toNat + (e' + 1074).toNat := by
    unfold excess
    rw [log2_mul_two_pow hm]
    omega
  have hround : roundDiv m' (2 ^ (t - e').toNat) .toEven =
      roundDiv (m * 2 ^ (e + 1074).toNat) (2 ^ excess (m * 2 ^ (e + 1074).toNat)) .toEven := by
    rw [hexcess, hnumber, Nat.pow_add, roundDiv_mul_mul _ _ (Nat.two_pow_pos _)]
  have hfirst : shiftToTargetExponent .binary64 m' e' .exact = (cut m' (t - e').toNat, t) := by
    have ht' : Format.binary64.targetExponent (totalExponent m' e') = t := by
      rw [targetExponent_eq, totalExponent, hm', log2_mul_two_pow hm]
      omega
    unfold shiftToTargetExponent
    rw [shiftToExponent_exact, ht', Int.max_eq_right (by omega)]
  have hresult : round .binary64 s m e = assemble s (shiftToTargetExponent .binary64
      (roundDiv (m * 2 ^ (e + 1074).toNat) (2 ^ excess (m * 2 ^ (e + 1074).toNat)) .toEven) t
        .exact) := by
    unfold UnpackedFloat.round
    simp only [← ht, hspread]
    rw [roundWithAccuracy_eq_assemble, hfirst, roundedMantissa_cut, hround]
  have hpower : excess (m * 2 ^ (e + 1074).toNat) = (t + 1074).toNat := by omega
  have hfull : 2 ^ 52 ≤ roundDiv (m * 2 ^ (e + 1074).toNat)
      (2 ^ excess (m * 2 ^ (e + 1074).toNat)) .toEven ∨ t = -1074 := by
    by_cases hcut : 0 < excess (m * 2 ^ (e + 1074).toNat)
    · exact Or.inl ((le_div_excess hcut).trans (div_le_roundDiv _ _ _))
    · exact Or.inr (by omega)
  have hfit := assemble_exact s (by omega : -1074 ≤ t) (roundDiv_excess_le _ .toEven) hfull
  rw [hresult, rounded]
  refine ⟨hfit.1, hfit.2.trans ?_⟩
  rw [← hpower]
  push_cast
  rfl

/-! ## Sums -/

/-- A level rounded to the nearest one whose digits fit into a significand. -/
def roundedLevel (n : Int) : Int := n.sign * rounded n.natAbs

theorem roundedLevel_neg (n : Int) : roundedLevel (-n) = -roundedLevel n := by
  unfold roundedLevel
  rw [Int.sign_neg, Int.natAbs_neg, Int.neg_mul]

theorem roundedLevel_natCast (n : Nat) : roundedLevel n = rounded n := by
  unfold roundedLevel
  rcases Nat.eq_zero_or_pos n with rfl | hn
  · rfl
  · rw [Int.sign_eq_one_of_pos (by omega), Int.one_mul, Int.natAbs_natCast]

theorem roundedLevel_apply (s : Sign) (n : Nat) :
    roundedLevel (s.apply n) = s.apply (rounded n) := by
  cases s with
  | positive => exact roundedLevel_natCast n
  | negative =>
    show roundedLevel (-n) = -(rounded n : Int)
    rw [roundedLevel_neg, roundedLevel_natCast]

theorem normalize_exact (m : Int) {e : Int} (he : -1074 ≤ e) :
    Canonical (normalize .binary64 m e .positive) ∧
      level (normalize .binary64 m e .positive) =
        some (roundedLevel (m * 2 ^ (e + 1074).toNat)) := by
  have hsigned : ∀ (s : Sign) (n : Nat), 0 < n → m = s.apply n →
      Canonical (round .binary64 s n e) ∧
        level (round .binary64 s n e) = some (roundedLevel (m * 2 ^ (e + 1074).toNat)) := by
    intro s n hn hm
    have hmul : m * 2 ^ (e + 1074).toNat = s.apply (n * 2 ^ (e + 1074).toNat : Nat) := by
      rw [hm]
      cases s
      · simp only [Sign.apply, Nat.cast_mul, Nat.cast_pow, Nat.cast_ofNat, Int.neg_mul]
      · simp only [Sign.apply, Nat.cast_mul, Nat.cast_pow, Nat.cast_ofNat]
    obtain ⟨hcanon, hlevel⟩ := round_exact s hn he
    refine ⟨hcanon, hlevel.trans ?_⟩
    rw [hmul, roundedLevel_apply]
  unfold UnpackedFloat.normalize
  rcases lt_trichotomy m 0 with hm | rfl | hm
  · rw [show compare m 0 = .lt from Int.compare_eq_lt.mpr hm]
    exact hsigned .negative _ (by omega) (by simp only [Sign.apply]; omega)
  · rw [show compare (0 : Int) 0 = .eq from Int.compare_eq_eq.mpr rfl]
    refine ⟨trivial, ?_⟩
    rw [Int.zero_mul]
    rfl
  · rw [show compare m 0 = .gt from Int.compare_eq_gt.mpr hm]
    exact hsigned .positive _ (by omega) (by simp only [Sign.apply]; omega)

/-- What fits into a double is its own nearest level. -/
theorem roundedLevel_level {u : UnpackedFloat} {a : Int} (hu : Canonical u) (h : level u = some a) :
    roundedLevel a = a := by
  cases u with
  | notANumber => cases h
  | infinity s =>
    cases h
    have htop := roundedLevel_apply s (2 ^ levelDigits)
    rw [rounded_two_pow] at htop
    exact htop
  | zero s =>
    cases h
    rfl
  | finite s m e hm =>
    rw [level_finite] at h
    cases h
    have hself := roundedLevel_apply s (m * 2 ^ (e + 1074).toNat)
    rw [rounded_eq_self hu.1] at hself
    simpa only [Nat.cast_mul, Nat.cast_pow, Nat.cast_ofNat] using hself

end StockFlow.Doubles
