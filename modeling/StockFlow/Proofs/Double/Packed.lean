import StockFlow.Proofs.Double.Unpacked
import Mathlib.Tactic.Positivity

/-!
# Doubles as bits

* `level_unpack_pack` — packing keeps the level, or makes it that of infinity
* `fits_unpack` — what is unpacked has the form that packing needs
* `compare_exact` — unpacked doubles compare as their levels do
-/

namespace StockFlow.Doubles

open Float.Model Float.Model.UnpackedFloat

/-! ## Parts of the bits -/

theorem unpackSign_packComponents (s : Sign) (e : BitVec 11) (m : BitVec 52) :
    Sign.ofBitVec (unpackSign (packComponents .binary64 s e m)) = s := by
  have htop : (s.toBitVec ++ e ++ m).getLsbD 63 = s.toBitVec.getLsbD 0 := by
    rw [BitVec.getLsbD_append, BitVec.getLsbD_append]
    simp
  have hbit : unpackSign (packComponents .binary64 s e m) = s.toBitVec := by
    ext i hi
    obtain rfl : i = 0 := by omega
    show (BitVec.cast _ (BitVec.extractLsb 63 63 (s.toBitVec ++ e ++ m)))[0] = _
    rw [BitVec.getElem_cast, BitVec.getElem_extract]
    exact htop
  rw [hbit]
  cases s <;> rfl

theorem toNat_implicit (m : BitVec 52) : (1#1 ++ m).toNat = 2 ^ 52 + m.toNat := by
  rw [BitVec.toNat_append, ← Nat.shiftLeft_add_eq_or_of_lt m.isLt, Nat.shiftLeft_eq]
  rfl

theorem toNat_implicit_pos (m : BitVec 52) : 0 < (1#1 ++ m).toNat := by
  rw [toNat_implicit]
  omega

/-! ## Packing -/

theorem pack_finite (s : Sign) {m : Nat} {e : Int} (hm : 0 < m) :
    UnpackedFloat.pack .binary64 (.finite s m e hm) =
      if 2048 ≤ (e + 1075).toNat + 1 then packedInfinity .binary64 s
      else if m.log2 + 1 = 53 then
        packComponents .binary64 s (BitVec.ofNat 11 (e + 1075).toNat) (BitVec.ofNat 52 m)
      else packComponents .binary64 s 0#11 (BitVec.ofNat 52 m) := by
  have hexp : e + (Format.binary64.exponentBias : Int) +
      (Format.binary64.mantissaBitsWithoutImplicit : Int) = e + 1075 := by
    show e + 1023 + 52 = e + 1075
    omega
  rw [← hexp]
  rfl

/-- What a sign, an exponent and a mantissa stand for. -/
def ofParts (s : Sign) (e : BitVec 11) (m : BitVec 52) : UnpackedFloat :=
  if e = -1#11 then
    if m = 0#52 then .infinity s else .notANumber
  else if e = 0#11 then
    if h : m = 0#52 then .zero s
    else .finite s m.toNat (e.toNat - 1075 + 1)
      (by simpa [BitVec.toNat_pos, BitVec.pos_iff_ne_zero])
  else .finite s (1#1 ++ m).toNat (e.toNat - 1075) (toNat_implicit_pos m)

theorem unpack_eq_ofParts (b : BitVec Format.binary64.numBits) :
    UnpackedFloat.unpack .binary64 b =
      ofParts (Sign.ofBitVec (unpackSign b)) (unpackExponent b) (unpackMantissa b) := rfl

theorem unpack_packComponents (s : Sign) (e : BitVec 11) (m : BitVec 52) :
    UnpackedFloat.unpack .binary64 (packComponents .binary64 s e m) = ofParts s e m := by
  have hexp : unpackExponent (packComponents .binary64 s e m) = e := unpackExponent_packComponents
  have hmant : unpackMantissa (packComponents .binary64 s e m) = m := unpackMantissa_packComponents
  rw [unpack_eq_ofParts, unpackSign_packComponents, hexp, hmant]

theorem unpack_packedInfinity (s : Sign) :
    UnpackedFloat.unpack .binary64 (packedInfinity .binary64 s) = .infinity s := by
  cases s <;> rfl

theorem log2_eq_iff {m : Nat} (hm : m < 2 ^ 53) : m.log2 + 1 = 53 ↔ 2 ^ 52 ≤ m := by
  by_cases hz : m = 0
  · rw [hz]
    decide
  · have hlt := (Nat.log2_lt hz).mpr hm
    rw [← Nat.le_log2 hz]
    omega

/-- What is too large becomes infinity. -/
theorem unpack_pack_of_lt {s : Sign} {m : Nat} {e : Int} (hm : 0 < m) (he : 971 < e) :
    UnpackedFloat.unpack .binary64 (UnpackedFloat.pack .binary64 (.finite s m e hm)) =
      .infinity s := by
  rw [pack_finite, if_pos (by omega), unpack_packedInfinity]

/-- **What is unpacked again is what was packed,** as long as it is not too large. -/
theorem unpack_pack_of_le {s : Sign} {m : Nat} {e : Int} (hm : 0 < m)
    (hc : Canonical (.finite s m e hm)) (he : e ≤ 971) :
    UnpackedFloat.unpack .binary64 (UnpackedFloat.pack .binary64 (.finite s m e hm)) =
      .finite s m e hm := by
  obtain ⟨hlt, hmin, hfit⟩ := hc
  rw [pack_finite, if_neg (by omega)]
  by_cases hfull : 2 ^ 52 ≤ m
  · -- the leading digit is left out, and the exponent says that it is there
    have hexp : (BitVec.ofNat 11 (e + 1075).toNat).toNat = (e + 1075).toNat := by
      rw [BitVec.toNat_ofNat]
      exact Nat.mod_eq_of_lt (by omega)
    have hones : BitVec.ofNat 11 (e + 1075).toNat ≠ -1#11 := by
      intro h
      have htoNat := congrArg BitVec.toNat h
      rw [hexp, show (-1#11).toNat = 2047 from rfl] at htoNat
      omega
    have hzero : BitVec.ofNat 11 (e + 1075).toNat ≠ 0#11 := by
      intro h
      have htoNat := congrArg BitVec.toNat h
      rw [hexp, show (0#11).toNat = 0 from rfl] at htoNat
      omega
    rw [if_pos ((log2_eq_iff hlt).mpr hfull), unpack_packComponents, ofParts, if_neg hones,
      if_neg hzero]
    refine finite_congr s ?_ ?_
    · rw [toNat_implicit, BitVec.toNat_ofNat]
      omega
    · rw [hexp]
      omega
  · have hm' : (BitVec.ofNat 52 m).toNat = m := by
      rw [BitVec.toNat_ofNat]
      exact Nat.mod_eq_of_lt (by omega)
    have hne : BitVec.ofNat 52 m ≠ 0#52 := by
      intro h
      have htoNat := congrArg BitVec.toNat h
      rw [hm', show (0#52).toNat = 0 from rfl] at htoNat
      omega
    rw [if_neg (mt (log2_eq_iff hlt).mp hfull), unpack_packComponents, ofParts,
      if_neg (by decide), if_pos rfl, dif_neg hne]
    exact finite_congr s hm' (hfit.resolve_left hfull).symm

/-! ## Levels -/

/-- Unpacked doubles as they come from bits. -/
def Fits : UnpackedFloat → Prop
  | .finite s m e hm => Canonical (.finite s m e hm) ∧ e ≤ 971
  | _ => True

theorem fits_ofParts (s : Sign) (e : BitVec 11) (m : BitVec 52) : Fits (ofParts s e m) := by
  have hm : m.toNat < 2 ^ 52 := m.isLt
  have he : e.toNat < 2048 := e.isLt
  unfold ofParts
  by_cases hones : e = -1#11
  · rw [if_pos hones]
    by_cases hzero : m = 0#52
    · rw [if_pos hzero]
      trivial
    · rw [if_neg hzero]
      trivial
  · rw [if_neg hones]
    by_cases hsub : e = 0#11
    · rw [if_pos hsub]
      by_cases hzero : m = 0#52
      · rw [dif_pos hzero]
        trivial
      · rw [dif_neg hzero]
        have hexp : e.toNat = 0 := by rw [hsub]; rfl
        exact ⟨⟨by omega, by omega, Or.inr (by omega)⟩, by omega⟩
    · rw [if_neg hsub]
      have hpos : e.toNat ≠ 0 := fun h => hsub (BitVec.eq_of_toNat_eq h)
      have hlast : e.toNat ≠ 2047 := fun h => hones (BitVec.eq_of_toNat_eq h)
      have hfull := toNat_implicit m
      exact ⟨⟨by omega, by omega, Or.inl (by omega)⟩, by omega⟩

/-- **What is unpacked has the form that packing needs.** -/
theorem fits_unpack (b : BitVec Format.binary64.numBits) :
    Fits (UnpackedFloat.unpack .binary64 b) := by
  rw [unpack_eq_ofParts]
  exact fits_ofParts _ _ _

/-- A level, or that of infinity if it lies beyond. -/
def limited (n : Int) : Int := max (-topLevel) (min topLevel n)

theorem topLevel_pos : 0 < topLevel := Int.natCast_pos.mpr (Nat.two_pow_pos levelDigits)

theorem limited_of_le {n : Int} (hlow : -topLevel ≤ n) (hhigh : n ≤ topLevel) : limited n = n := by
  unfold limited
  omega

/-- A size of a finite double lies below that of infinity. -/
theorem lt_topLevel {m : Nat} {e : Int} (hm : m < 2 ^ 53) (he : e ≤ 971) :
    (m : Int) * 2 ^ (e + 1074).toNat < topLevel := by
  have hsize : m * 2 ^ (e + 1074).toNat < 2 ^ levelDigits := by
    calc
      m * 2 ^ (e + 1074).toNat < 2 ^ 53 * 2 ^ (e + 1074).toNat :=
        Nat.mul_lt_mul_of_pos_right hm (Nat.two_pow_pos _)
      _ = 2 ^ (53 + (e + 1074).toNat) := (Nat.pow_add ..).symm
      _ ≤ 2 ^ levelDigits := Nat.pow_le_pow_right Nat.two_pos (by unfold levelDigits; omega)
  unfold topLevel
  exact_mod_cast hsize

theorem topLevel_le {m : Nat} {e : Int} (hm : 2 ^ 52 ≤ m) (he : 971 < e) :
    topLevel ≤ (m : Int) * 2 ^ (e + 1074).toNat := by
  have hsize : 2 ^ levelDigits ≤ m * 2 ^ (e + 1074).toNat := by
    calc
      2 ^ levelDigits ≤ 2 ^ (52 + (e + 1074).toNat) :=
        Nat.pow_le_pow_right Nat.two_pos (by unfold levelDigits; omega)
      _ = 2 ^ 52 * 2 ^ (e + 1074).toNat := Nat.pow_add ..
      _ ≤ m * 2 ^ (e + 1074).toNat := Nat.mul_le_mul_right _ hm
  unfold topLevel
  exact_mod_cast hsize

theorem limited_apply {s : Sign} {n : Int} (h : topLevel ≤ n) :
    limited (s.apply n) = s.apply topLevel := by
  have hpos := topLevel_pos
  unfold limited
  cases s <;> (simp only [Sign.apply]; omega)

/-- **Packing keeps the level,** or makes it that of infinity. -/
theorem level_unpack_pack {u : UnpackedFloat} (hu : Canonical u) :
    level (UnpackedFloat.unpack .binary64 (UnpackedFloat.pack .binary64 u)) =
      (level u).map limited := by
  cases u with
  | notANumber => rfl
  | infinity s =>
    show level (UnpackedFloat.unpack .binary64 (packedInfinity .binary64 s)) = _
    rw [unpack_packedInfinity, level_infinity, Option.map_some, limited_apply le_rfl]
  | zero s =>
    have hzero : limited 0 = 0 := limited_of_le (by have := topLevel_pos; omega) topLevel_pos.le
    show level (UnpackedFloat.unpack .binary64 (packedZero .binary64 s)) = some (limited 0)
    rw [hzero]
    cases s <;> rfl
  | finite s m e hm =>
    by_cases he : e ≤ 971
    · have hlt := lt_topLevel hu.1 he
      have hnonneg : 0 ≤ (m : Int) * 2 ^ (e + 1074).toNat := by positivity
      rw [unpack_pack_of_le hm hu he, level_finite, Option.map_some, limited_of_le]
      · cases s <;> (simp only [Sign.apply]; omega)
      · cases s <;> (simp only [Sign.apply]; omega)
    · have hlarge : 971 < e := by omega
      have hle := topLevel_le (hu.2.2.resolve_right (by omega)) hlarge
      rw [unpack_pack_of_lt hm hlarge, level_finite, Option.map_some, limited_apply hle]
      rfl

/-! ## Comparisons -/

/-- Of two sizes the one with the larger exponent is larger, then the one with the larger
significand. -/
theorem compare_size {m m' : Nat} {e e' : Int} {s s' : Sign} {hm : 0 < m} {hm' : 0 < m'}
    (hc : Canonical (.finite s m e hm)) (hc' : Canonical (.finite s' m' e' hm')) :
    (compare e e').then (compare m m') =
      compare ((m : Int) * 2 ^ (e + 1074).toNat) ((m' : Int) * 2 ^ (e' + 1074).toNat) := by
  -- a significand that is full under the larger exponent makes up for any other
  have hless : ∀ {m m' : Nat} {e e' : Int}, m < 2 ^ 53 → -1074 ≤ e → (2 ^ 52 ≤ m' ∨ e' = -1074) →
      e < e' → (m : Int) * 2 ^ (e + 1074).toNat < (m' : Int) * 2 ^ (e' + 1074).toNat := by
    intro m m' e e' hm he hm' hlt
    have hsize : m * 2 ^ (e + 1074).toNat < m' * 2 ^ (e' + 1074).toNat := by
      calc
        m * 2 ^ (e + 1074).toNat < 2 ^ 53 * 2 ^ (e + 1074).toNat :=
          Nat.mul_lt_mul_of_pos_right hm (Nat.two_pow_pos _)
        _ = 2 ^ (53 + (e + 1074).toNat) := (Nat.pow_add ..).symm
        _ ≤ 2 ^ (52 + (e' + 1074).toNat) := Nat.pow_le_pow_right Nat.two_pos (by omega)
        _ = 2 ^ 52 * 2 ^ (e' + 1074).toNat := Nat.pow_add ..
        _ ≤ m' * 2 ^ (e' + 1074).toNat := Nat.mul_le_mul_right _ (hm'.resolve_right (by omega))
    exact_mod_cast hsize
  rcases lt_trichotomy e e' with hlt | rfl | hlt
  · rw [Int.compare_eq_lt.mpr hlt, Int.compare_eq_lt.mpr (hless hc.1 hc.2.1 hc'.2.2 hlt)]
    rfl
  · have hpow : (0 : Int) < 2 ^ (e + 1074).toNat := by positivity
    rw [Int.compare_eq_eq.mpr rfl, Ordering.eq_then]
    rcases lt_trichotomy m m' with h | rfl | h
    · rw [Nat.compare_eq_lt.mpr h,
        Int.compare_eq_lt.mpr (Int.mul_lt_mul_of_pos_right (by omega) hpow)]
    · rw [Nat.compare_eq_eq.mpr rfl, Int.compare_eq_eq.mpr rfl]
    · rw [Nat.compare_eq_gt.mpr h,
        Int.compare_eq_gt.mpr (Int.mul_lt_mul_of_pos_right (by omega) hpow)]
  · rw [Int.compare_eq_gt.mpr hlt, Int.compare_eq_gt.mpr (hless hc'.1 hc'.2.1 hc.2.2 hlt)]
    rfl

theorem compare_neg (a b : Int) : compare (-a) (-b) = (compare a b).swap := by
  rcases lt_trichotomy a b with h | rfl | h
  · rw [Int.compare_eq_lt.mpr h, Int.compare_eq_gt.mpr (by omega)]
    rfl
  · rw [Int.compare_eq_eq.mpr rfl, Int.compare_eq_eq.mpr rfl]
    rfl
  · rw [Int.compare_eq_gt.mpr h, Int.compare_eq_lt.mpr (by omega)]
    rfl

theorem size_pos {m : Nat} (hm : 0 < m) (e : Int) : (0 : Int) < m * 2 ^ (e + 1074).toNat := by
  positivity

/-- The level of a finite double lies between those of the infinities. -/
theorem level_within {s : Sign} {m : Nat} {e : Int} {hm : 0 < m} (h : Fits (.finite s m e hm)) :
    -topLevel < s.apply (m * 2 ^ (e + 1074).toNat) ∧
      s.apply (m * 2 ^ (e + 1074).toNat) < topLevel := by
  have hlt := lt_topLevel h.1.1 h.2
  have hpos := size_pos hm e
  cases s <;> (simp only [Sign.apply]; omega)

theorem some_compare_of_lt {a b : Int} (h : a < b) : some Ordering.lt = some (compare a b) :=
  congrArg some (Int.compare_eq_lt.mpr h).symm

theorem some_compare_of_gt {a b : Int} (h : b < a) : some Ordering.gt = some (compare a b) :=
  congrArg some (Int.compare_eq_gt.mpr h).symm

theorem some_compare_self (a : Int) : some Ordering.eq = some (compare a a) :=
  congrArg some (Int.compare_eq_eq.mpr rfl).symm

/-- Finite doubles compare by their signs, then by their sizes. -/
theorem compare_finite {s s' : Sign} {m m' : Nat} {e e' : Int} {hm : 0 < m} {hm' : 0 < m'}
    (hc : Canonical (.finite s m e hm)) (hc' : Canonical (.finite s' m' e' hm')) :
    (UnpackedFloat.finite s m e hm).compare (.finite s' m' e' hm') =
      some (compare (s.apply (m * 2 ^ (e + 1074).toNat))
        (s'.apply (m' * 2 ^ (e' + 1074).toNat))) := by
  have hpos := size_pos hm e
  have hpos' := size_pos hm' e'
  have hsize := compare_size hc hc'
  cases s <;> cases s'
  · show some ((compare e e').then (compare m m')).swap = some (compare (-_) (-_))
    rw [compare_neg, hsize]
  · exact some_compare_of_lt (by simp only [Sign.apply]; omega)
  · exact some_compare_of_gt (by simp only [Sign.apply]; omega)
  · exact congrArg some hsize

/-- **Unpacked doubles compare as their levels do.** -/
theorem compare_exact {u v : UnpackedFloat} {a b : Int} (hu : Fits u) (hv : Fits v)
    (ha : level u = some a) (hb : level v = some b) : u.compare v = some (compare a b) := by
  have htop := topLevel_pos
  cases u with
  | notANumber => cases ha
  | infinity s =>
    cases ha
    cases v with
    | notANumber => cases hb
    | infinity s' =>
      cases hb
      cases s <;> cases s'
      · exact some_compare_self _
      · exact some_compare_of_lt (by simp only [Sign.apply]; omega)
      · exact some_compare_of_gt (by simp only [Sign.apply]; omega)
      · exact some_compare_self _
    | zero s' =>
      cases hb
      cases s
      · exact some_compare_of_lt (by simp only [Sign.apply]; omega)
      · exact some_compare_of_gt (by simp only [Sign.apply]; omega)
    | finite s' m' e' hm' =>
      rw [level_finite] at hb
      cases hb
      have hwithin := level_within hv
      cases s
      · exact some_compare_of_lt hwithin.1
      · exact some_compare_of_gt hwithin.2
  | zero s =>
    cases ha
    cases v with
    | notANumber => cases hb
    | infinity s' =>
      cases hb
      cases s'
      · exact some_compare_of_gt (by simp only [Sign.apply]; omega)
      · exact some_compare_of_lt (by simp only [Sign.apply]; omega)
    | zero s' =>
      cases hb
      exact some_compare_self _
    | finite s' m' e' hm' =>
      rw [level_finite] at hb
      cases hb
      have hpos := size_pos hm' e'
      cases s'
      · exact some_compare_of_gt (by simp only [Sign.apply]; omega)
      · exact some_compare_of_lt (by simp only [Sign.apply]; omega)
  | finite s m e hm =>
    rw [level_finite] at ha
    cases ha
    have hpos := size_pos hm e
    cases v with
    | notANumber => cases hb
    | infinity s' =>
      cases hb
      have hwithin := level_within hu
      cases s'
      · cases s <;> exact some_compare_of_gt hwithin.1
      · cases s <;> exact some_compare_of_lt hwithin.2
    | zero s' =>
      cases hb
      cases s
      · exact some_compare_of_lt (by simp only [Sign.apply]; omega)
      · exact some_compare_of_gt (by simp only [Sign.apply]; omega)
    | finite s' m' e' hm' =>
      rw [level_finite] at hb
      cases hb
      exact compare_finite hu.1 hv.1

end StockFlow.Doubles
