import Mathlib.Data.List.TakeWhile
import StockFlow.Decimal.Notation
import StockFlow.Proofs.Decimal.Numeral
import StockFlow.Proofs.Double.Packed

/-!
# How a double is written

A finite double is written as a numeral, behind a minus sign if it has one.

* `Decimal.decode_eq` — a double is taken apart as arithmetic takes it apart
* `Decimal.plain_cases` — the text of a double is a numeral, or that of its size behind a minus sign
-/

namespace StockFlow.Decimal

open Float.Model Float.Model.UnpackedFloat

/-! ## Signs -/

/-- Whether a double has a minus sign. -/
def isNegative (x : Float) : Bool :=
  match Binary64.decode x with
  | .nan => false
  | .infinite negative | .finite negative _ _ => negative

/-- What an unpacked double stands for. -/
def Binary64.ofUnpacked : UnpackedFloat → Binary64
  | .notANumber => .nan
  | .infinity s => .infinite (s == .negative)
  | .zero s => .finite (s == .negative) 0 leastExponent
  | .finite s m e _ => .finite (s == .negative) m e

theorem ofBitVec_eq_negative (b : BitVec 1) :
    (Sign.ofBitVec b == .negative) = decide (b.toNat = 1) := by
  revert b
  decide

theorem ofUnpacked_ofParts (s : Sign) (e : BitVec 11) (m : BitVec 52) :
    Binary64.ofUnpacked (Doubles.ofParts s e m) =
      if e.toNat = 2047 then
        if m.toNat = 0 then .infinite (s == .negative) else .nan
      else if e.toNat = 0 then .finite (s == .negative) m.toNat Binary64.leastExponent
      else .finite (s == .negative) (2 ^ 52 + m.toNat) (Binary64.leastExponent + e.toNat - 1) := by
  have hones : e = -1#11 ↔ e.toNat = 2047 := BitVec.toNat_inj.symm
  have hzero : e = 0#11 ↔ e.toNat = 0 := BitVec.toNat_inj.symm
  have hnone : m = 0#52 ↔ m.toNat = 0 := BitVec.toNat_inj.symm
  unfold Doubles.ofParts
  by_cases he : e = -1#11
  · rw [if_pos he, if_pos (hones.mp he)]
    by_cases hm : m = 0#52
    · rw [if_pos hm, if_pos (hnone.mp hm)]
      rfl
    · rw [if_neg hm, if_neg (mt hnone.mpr hm)]
      rfl
  · rw [if_neg he, if_neg (mt hones.mpr he)]
    by_cases hsub : e = 0#11
    · rw [if_pos hsub, if_pos (hzero.mp hsub)]
      by_cases hm : m = 0#52
      · rw [dif_pos hm, hnone.mp hm]
        rfl
      · rw [dif_neg hm, hzero.mp hsub]
        rfl
    · rw [if_neg hsub, if_neg (mt hzero.mpr hsub), ← Doubles.toNat_implicit]
      show Binary64.finite _ _ _ = Binary64.finite _ _ _
      congr 1
      unfold Binary64.leastExponent
      omega

/-- **A double is taken apart as arithmetic takes it apart.** -/
theorem decode_eq (x : Float) : Binary64.decode x = Binary64.ofUnpacked x.toModel.unpack := by
  show Binary64.ofBits x.toModel.toBits = Binary64.ofUnpacked (UnpackedFloat.unpack .binary64 _)
  generalize hb : x.toModel.toBits.toBitVec = b
  have hn : x.toModel.toBits.toNat = b.toNat := by rw [← hb]; rfl
  have hlt : b.toNat < 2 ^ 64 := b.isLt
  have hexp : (@unpackExponent .binary64 b).toNat = b.toNat / 2 ^ 52 % 2 ^ 11 := by
    show (BitVec.extractLsb 62 52 b).toNat = _
    rw [BitVec.extractLsb_toNat, Nat.shiftRight_eq_div_pow]
  have hman : (@unpackMantissa .binary64 b).toNat = b.toNat % 2 ^ 52 := by
    show (BitVec.extractLsb 51 0 b).toNat = _
    rw [BitVec.extractLsb_toNat, Nat.shiftRight_eq_div_pow, Nat.pow_zero, Nat.div_one]
  have hsign : (@unpackSign .binary64 b).toNat = b.toNat / 2 ^ 63 % 2 := by
    show (BitVec.extractLsb 63 63 b).toNat = _
    rw [BitVec.extractLsb_toNat, Nat.shiftRight_eq_div_pow]
  rw [Doubles.unpack_eq_ofParts, ofUnpacked_ofParts, ofBitVec_eq_negative, hexp, hman, hsign]
  have hnegative : decide (Binary64.signBit ≤ b.toNat) = decide (b.toNat / 2 ^ 63 % 2 = 1) := by
    unfold Binary64.signBit
    exact decide_eq_decide.mpr (by omega)
  unfold Binary64.ofBits
  simp only [hn, hnegative]
  rfl

variable {x y : Float} {negative : Bool} {m : Nat} {q : Int}

theorem exists_decode_of_isFinite (h : x.isFinite = true) :
    ∃ negative m q, Binary64.decode x = .finite negative m q := by
  change x.toModel.unpack.isFinite = true at h
  rw [decode_eq]
  cases hx : x.toModel.unpack with
  | notANumber | infinity => rw [hx] at h; cases h
  | zero | finite => exact ⟨_, _, _, rfl⟩

/-- The bits of a finite double are those of its sign, its significand and its exponent. -/
theorem toNat_toBits_of_decode (h : Binary64.decode x = .finite negative m q) :
    x.toBits.toNat = (if negative then 2 ^ 63 else 0) +
      if m < 2 ^ 52 then m else (q - Binary64.leastExponent).toNat * 2 ^ 52 + m := by
  have hlt : x.toBits.toNat < 2 ^ 64 := x.toBits.toNat_lt
  have hsign (n : Nat) (hn : n < 2 ^ 64) :
      (if decide (Binary64.signBit ≤ n) = true then 2 ^ 63 else 0) = n / 2 ^ 63 * 2 ^ 63 := by
    by_cases hle : Binary64.signBit ≤ n
    · rw [decide_eq_true hle, if_pos rfl]
      unfold Binary64.signBit at hle
      omega
    · rw [decide_eq_false hle, if_neg Bool.false_ne_true]
      unfold Binary64.signBit at hle
      omega
  unfold Binary64.decode Binary64.ofBits Binary64.exponents Binary64.fractions
    Binary64.leastExponent at *
  simp only at h
  generalize x.toBits.toNat = n at h hlt ⊢
  split at h
  · split at h <;> cases h
  · split at h
    · cases h
      rw [hsign n hlt, if_pos (by omega)]
      omega
    · cases h
      rw [hsign n hlt, if_neg (by omega)]
      omega

theorem eq_of_decode (hx : Binary64.decode x = .finite negative m q)
    (hy : Binary64.decode y = .finite negative m q) : x = y := by
  have h : x.toBits = y.toBits :=
    UInt64.toNat_inj.mp ((toNat_toBits_of_decode hx).trans (toNat_toBits_of_decode hy).symm)
  obtain ⟨⟨xbits, xvalid⟩⟩ := x
  obtain ⟨⟨ybits, yvalid⟩⟩ := y
  obtain rfl : xbits = ybits := h
  rfl

/-- The size of a finite double is the same number without its sign. -/
theorem decode_abs (h : Binary64.decode x = .finite negative m q) :
    Binary64.decode x.abs = .finite false m q := by
  have hfits := Doubles.fits_unpack x.toModel.toBits.toBitVec
  change Doubles.Fits x.toModel.unpack at hfits
  rw [decode_eq] at h ⊢
  show Binary64.ofUnpacked (UnpackedFloat.unpack .binary64 (UnpackedFloat.pack .binary64
    x.toModel.unpack.abs)) = _
  cases hu : x.toModel.unpack with
  | notANumber | infinity => rw [hu] at h; cases h
  | zero s =>
    rw [hu] at h
    cases h
    exact (congrArg _ (Doubles.unpack_packComponents .positive 0#11 0#52)).trans
      (ofUnpacked_ofParts ..)
  | finite s m' e hm =>
    rw [hu] at h hfits
    cases h
    obtain ⟨⟨hlt, hmin, hfit⟩, hmax⟩ := hfits
    exact congrArg Binary64.ofUnpacked
      (Doubles.unpack_pack_of_le (s := .positive) hm ⟨hlt, hmin, hfit⟩ hmax)

theorem abs_eq_self (h : Binary64.decode x = .finite false m q) : x.abs = x :=
  eq_of_decode (decode_abs h) h

/-- **The text of a negative double is that of its size behind a minus sign.** -/
theorem plain_of_negative (h : Binary64.decode x = .finite true m q) :
    plain x = "-" ++ plain x.abs := by
  unfold plain
  rw [h, decode_abs h]
  simp only
  split <;> simp only [signed, ↓reduceIte, Bool.false_eq_true] <;>
    exact @String.ofList_append ['-'] _

/-! ## Numerals -/

open Number (Digits Fraction parse?)

theorem digits_digitsOf (n : Nat) : Digits (digitsOf n) :=
  fun _ hc => Nat.isDigit_of_mem_toDigits (by decide) (by decide) hc

theorem digits_replicate (n : Nat) : Digits (List.replicate n '0') := by
  intro c hc
  rw [List.eq_of_mem_replicate hc]
  rfl

/-- Digits, perhaps with a fraction behind them, are a numeral. -/
theorem isSome_parse?_of_parts {whole fraction : List Char} (hne : whole ≠ [])
    (hwhole : Digits whole) (hfraction : Fraction fraction) :
    (parse? (whole ++ fraction)).isSome = true := by
  have htake : (whole ++ fraction).takeWhile Char.isDigit = whole := by
    rw [List.takeWhile_append_of_pos hwhole]
    cases hfraction <;> exact List.append_nil whole
  have hdrop : (whole ++ fraction).dropWhile Char.isDigit = fraction := by
    rw [List.dropWhile_append_of_pos hwhole]
    cases hfraction <;> rfl
  have hrest : (Number.fraction fraction).2 = [] := by
    cases hfraction with
    | none => rfl
    | point hds => exact List.dropWhile_eq_nil_iff.mpr hds
  have hsome : whole.isEmpty = false := List.isEmpty_eq_false_iff.mpr hne
  unfold parse?
  simp only [htake, hdrop, hrest, hsome, Bool.false_and, Bool.false_eq_true, ↓reduceIte,
    Number.exponent?, Option.map_some, Option.isSome_some]

/-- Digits with a point put in are a numeral, wherever it is put. -/
theorem isSome_parse?_positional {digits : List Char} (hne : digits ≠ []) (hdigits : Digits digits)
    (place : Int) : (parse? (positional digits place [])).isSome = true := by
  unfold positional
  split
  · have hall : Digits (digits ++ List.replicate (place.toNat - digits.length) '0') :=
      List.forall_mem_append.mpr ⟨hdigits, digits_replicate _⟩
    exact isSome_parse?_of_parts (List.append_ne_nil_of_left_ne_nil hne _) hall .none
  · split
    · next hplace =>
      have htake : digits.take place.toNat ≠ [] := by
        rw [Ne, List.take_eq_nil_iff]
        rintro (hzero | hnil)
        · omega
        · exact hne hnil
      exact isSome_parse?_of_parts htake (fun _ hc => hdigits _ (List.mem_of_mem_take hc))
        (.point fun _ hc => hdigits _ (List.mem_of_mem_drop hc))
    · have hfraction : Fraction ('.' :: (List.replicate (-place).toNat '0' ++ digits)) :=
        .point (List.forall_mem_append.mpr ⟨digits_replicate _, hdigits⟩)
      have hparts :=
        isSome_parse?_of_parts (List.cons_ne_nil '0' []) (digits_replicate 1) hfraction
      exact hparts

/-- **The text of a finite double without a minus sign is a numeral.** -/
theorem isSome_parse?_plain (h : Binary64.decode x = .finite false m q) :
    (parse? (plain x).toList).isSome = true := by
  unfold plain
  rw [h]
  simp only [signed, Bool.false_eq_true, ↓reduceIte]
  split
  · rfl
  · rw [String.toList_ofList]
    exact isSome_parse?_positional Nat.toDigits_ne_nil (digits_digitsOf _) _

/-- **A finite double is written as a numeral,** behind a minus sign if it has one. -/
theorem plain_cases (h : x.isFinite = true) :
    (isNegative x = true ∧ plain x = "-" ++ plain x.abs ∧
        (parse? (plain x.abs).toList).isSome = true) ∨
      (isNegative x = false ∧ x.abs = x ∧ (parse? (plain x).toList).isSome = true) := by
  obtain ⟨negative, m, q, hdecode⟩ := exists_decode_of_isFinite h
  have hsign : isNegative x = negative := by rw [isNegative, hdecode]
  cases negative with
  | true =>
    exact Or.inl ⟨hsign, plain_of_negative hdecode, isSome_parse?_plain (decode_abs hdecode)⟩
  | false => exact Or.inr ⟨hsign, abs_eq_self hdecode, isSome_parse?_plain hdecode⟩

end StockFlow.Decimal
