import StockFlow.Proofs.Decimal.Numeral
import StockFlow.Token.Scan

/-!
# The scanner takes the longest numeral

* `Scan.IsNumeral` — what the scanner takes for a numeral, with digits of any script
* `Scan.isNumeral_take`, `Scan.IsNumeral.length_le` — of all of them that a text starts with, it
  takes the longest
* `Scan.IsNumeral.inNumeral` — it has digits and a few marks in it
-/

namespace StockFlow

/-- The characters other than digits that a numeral may have. -/
def numeralMarks : List Char := ['.', 'e', 'E', '-', '+']

namespace Scan

/-- A character of a numeral. -/
def InNumeral (c : Char) : Prop := Text.isDecimalDigit c = true ∨ c ∈ numeralMarks

/-- Only a digit that is not ASCII takes more than a byte. -/
theorem plain_of_inNumeral {c : Char} (h : InNumeral c)
    (hascii : Text.isDecimalDigit c = true → c.toNat < 128) : c.utf8Size = 1 ∧ c ≠ '\n' := by
  rcases h with h | h
  · refine ⟨Char.utf8Size_eq_one_iff.mpr ?_, ?_⟩
    · exact UInt32.le_iff_toNat_le.mpr (Nat.le_of_lt_succ (hascii h))
    · rintro rfl
      exact absurd h (by decide)
  · simp only [numeralMarks, List.mem_cons, List.not_mem_nil, or_false] at h
    rcases h with rfl | rfl | rfl | rfl | rfl <;> decide

/-! ## The parts of a numeral -/

/-- A row of digits of any script, perhaps empty. -/
def IsDigits (cs : List Char) : Prop := ∀ c ∈ cs, Text.isDecimalDigit c = true

/-- A fraction: nothing, or a point and digits, perhaps none. -/
inductive IsFraction : List Char → Prop
  | none : IsFraction []
  | point {ds : List Char} : IsDigits ds → IsFraction ('.' :: ds)

/-- An exponent: nothing, or a mark, perhaps a sign, and digits. -/
inductive IsExponent : List Char → Prop
  | none : IsExponent []
  | mark {e : Char} {sign ds : List Char} : e = 'e' ∨ e = 'E' →
      sign = [] ∨ sign = ['-'] ∨ sign = ['+'] → ds ≠ [] → IsDigits ds →
      IsExponent (e :: (sign ++ ds))

/-- **What the scanner takes for a numeral.** -/
def IsNumeral (cs : List Char) : Prop :=
  ∃ whole fraction exponent, cs = whole ++ (fraction ++ exponent) ∧ IsDigits whole ∧
    IsFraction fraction ∧ IsExponent exponent

variable {cs ds : List Char}

theorem isDigits_take (cs : List Char) : IsDigits (cs.take (digitLength cs)) := by
  rw [digitLength, ← List.prefix_iff_eq_take.mp (List.takeWhile_prefix _)]
  exact fun c hc => List.all_eq_true.mp List.all_takeWhile c hc

theorem digitLength_append (h : IsDigits ds) (rest : List Char) :
    digitLength (ds ++ rest) = ds.length + digitLength rest := by
  rw [digitLength, List.takeWhile_append_of_pos h, List.length_append]
  rfl

theorem digitLength_eq_zero {c : Char} (h : c = '.' ∨ c = 'e' ∨ c = 'E') :
    digitLength (c :: cs) = 0 := by
  have hc : ¬Text.isDecimalDigit c = true := by
    rcases h with rfl | rfl | rfl <;> decide
  rw [digitLength, List.takeWhile_cons_of_neg hc]
  rfl

/-- Behind the mark of an exponent a sign is taken if digits follow. -/
theorem exponentLength_mark {e : Char} {sign rest : List Char} (he : e = 'e' ∨ e = 'E')
    (hsign : sign = [] ∨ sign = ['-'] ∨ sign = ['+']) (hrest : digitLength rest ≠ 0) :
    exponentLength (e :: (sign ++ rest)) = 1 + sign.length + digitLength rest := by
  have he : (e = 'e' || e = 'E') = true := by simpa using he
  rcases hsign with rfl | rfl | rfl
  · cases rest with
    | nil => exact absurd rfl hrest
    | cons d rest =>
      have hd : ¬(d = '-' || d = '+') = true := by
        intro hd
        rcases (by simpa using hd : d = '-' ∨ d = '+') with rfl | rfl <;> exact hrest rfl
      simp only [exponentLength, List.nil_append, if_pos he, if_neg hd, List.drop_zero]
      exact if_neg hrest
  · simp only [exponentLength, List.singleton_append, if_pos he]
    exact if_neg hrest
  · simp only [exponentLength, List.singleton_append, if_pos he]
    exact if_neg hrest

/-- An exponent is a mark, perhaps a sign, and digits. -/
theorem exponentLength_cases (cs : List Char) : exponentLength cs = 0 ∨ ∃ e sign rest,
    cs = e :: (sign ++ rest) ∧ (e = 'e' ∨ e = 'E') ∧ (sign = [] ∨ sign = ['-'] ∨ sign = ['+']) ∧
      digitLength rest ≠ 0 := by
  cases cs with
  | nil => exact Or.inl rfl
  | cons e rest =>
    by_cases he : (e = 'e' || e = 'E') = true
    · have hmark : e = 'e' ∨ e = 'E' := by simpa using he
      have hsign : ∃ sign digits, rest = sign ++ digits ∧
          (sign = [] ∨ sign = ['-'] ∨ sign = ['+']) ∧
          (digitLength digits = 0 → exponentLength (e :: rest) = 0) := by
        cases rest with
        | nil => exact ⟨[], [], rfl, Or.inl rfl, fun _ => by simp [exponentLength]⟩
        | cons s rest =>
          by_cases hs : (s = '-' || s = '+') = true
          · refine ⟨[s], rest, rfl, ?_, fun hzero => ?_⟩
            · rcases (by simpa using hs : s = '-' ∨ s = '+') with rfl | rfl <;> simp
            · simp only [exponentLength, if_pos he, if_pos hs]
              exact if_pos hzero
          · refine ⟨[], s :: rest, rfl, Or.inl rfl, fun hzero => ?_⟩
            simp only [exponentLength, if_pos he, if_neg hs]
            exact if_pos hzero
      obtain ⟨sign, digits, rfl, hsign, hzero⟩ := hsign
      by_cases hdigits : digitLength digits = 0
      · exact Or.inl (hzero hdigits)
      · exact Or.inr ⟨e, sign, digits, rfl, hmark, hsign, hdigits⟩
    · exact Or.inl (by simp only [exponentLength, if_neg he])

/-! ## What is taken is a numeral -/

theorem isFraction_take (cs : List Char) : IsFraction (cs.take (fractionLength cs)) := by
  unfold fractionLength
  split
  · next rest =>
    rw [Nat.add_comm, List.take_succ_cons]
    exact .point (isDigits_take rest)
  · exact .none

theorem isExponent_take (cs : List Char) : IsExponent (cs.take (exponentLength cs)) := by
  rcases exponentLength_cases cs with hzero | ⟨e, sign, rest, rfl, he, hsign, hdigits⟩
  · rw [hzero]
    exact .none
  · rw [exponentLength_mark he hsign hdigits, Nat.add_assoc, Nat.add_comm, List.take_succ_cons,
      List.take_length_add_append]
    refine .mark he hsign ?_ (isDigits_take rest)
    rw [ne_eq, List.take_eq_nil_iff, not_or]
    refine ⟨hdigits, ?_⟩
    rintro rfl
    exact hdigits rfl

/-- **What the scanner takes is a numeral.** -/
theorem isNumeral_take (cs : List Char) : IsNumeral (cs.take (numeralLength cs)) := by
  have hparts : ∀ n m k, cs.take (n + m + k) =
      cs.take n ++ ((cs.drop n).take m ++ (cs.drop (n + m)).take k) := fun n m k => by
    rw [List.take_add, List.take_add, List.append_assoc]
  exact ⟨_, _, _, hparts _ _ _, isDigits_take cs, isFraction_take _, isExponent_take _⟩

theorem numeralLength_le (cs : List Char) : numeralLength cs ≤ cs.length := by
  have hdigits (cs : List Char) : digitLength cs ≤ cs.length := (List.takeWhile_sublist _).length_le
  have hfraction (cs : List Char) : fractionLength cs ≤ cs.length := by
    unfold fractionLength
    split
    · next rest =>
      have := hdigits rest
      simp only [List.length_cons]
      omega
    · exact Nat.zero_le _
  have hexponent (cs : List Char) : exponentLength cs ≤ cs.length := by
    rcases exponentLength_cases cs with hzero | ⟨e, sign, rest, rfl, he, hsign, hne⟩
    · omega
    · have := hdigits rest
      rw [exponentLength_mark he hsign hne]
      simp only [List.length_cons, List.length_append]
      omega
  have hwhole := hdigits cs
  have hpoint := hfraction (cs.drop (digitLength cs))
  have hmark := hexponent (cs.drop (digitLength cs + fractionLength (cs.drop (digitLength cs))))
  simp only [List.length_drop] at hpoint hmark
  unfold numeralLength
  simp only
  omega

/-! ## It is the longest -/

/-- A fraction or an exponent does not start with a digit, and an exponent not with a point. -/
theorem IsExponent.starts (h : IsExponent cs) (hne : cs ≠ []) (rest : List Char) :
    digitLength (cs ++ rest) = 0 ∧ fractionLength (cs ++ rest) = 0 := by
  cases h with
  | none => exact absurd rfl hne
  | mark he =>
    refine ⟨digitLength_eq_zero (Or.inr he), ?_⟩
    rcases he with rfl | rfl <;> rfl

theorem IsExponent.length_le (h : IsExponent cs) (rest : List Char) :
    cs.length ≤ exponentLength (cs ++ rest) := by
  cases h with
  | none => exact Nat.zero_le _
  | @mark e sign ds he hsign hne hds =>
    have hlength := digitLength_append hds rest
    have hpos := List.length_pos_iff.mpr hne
    rw [List.cons_append, List.append_assoc, exponentLength_mark he hsign (by omega), hlength]
    simp only [List.length_cons, List.length_append]
    omega

/-- A fraction and an exponent behind it are a part of what is taken of them. -/
theorem IsFraction.length_le {exponent : List Char} (h : IsFraction cs) (he : IsExponent exponent)
    (rest : List Char) :
    cs.length + exponent.length ≤ fractionLength (cs ++ (exponent ++ rest)) +
      exponentLength ((cs ++ (exponent ++ rest)).drop
        (fractionLength (cs ++ (exponent ++ rest)))) := by
  have hexponent := he.length_le rest
  by_cases hne : exponent = []
  · rw [hne]
    cases h with
    | none => exact Nat.zero_le _
    | point hds =>
      have hlength := digitLength_append hds rest
      simp only [List.cons_append, List.nil_append, fractionLength, hlength, List.length_cons,
        List.length_nil]
      omega
  · obtain ⟨hdigits, hfraction⟩ := he.starts hne rest
    cases h with
    | none =>
      rw [List.nil_append, hfraction, List.drop_zero, List.length_nil]
      omega
    | @point ds hds =>
      have hlength : fractionLength ('.' :: ds ++ (exponent ++ rest)) = ds.length + 1 := by
        rw [List.cons_append, fractionLength, digitLength_append hds, hdigits]
        omega
      rw [hlength, List.cons_append, List.drop_succ_cons, List.drop_left, List.length_cons]
      omega

namespace IsNumeral

/-- **A numeral is a part of what is taken.** -/
theorem length_le (h : IsNumeral cs) (rest : List Char) :
    cs.length ≤ numeralLength (cs ++ rest) := by
  obtain ⟨whole, fraction, exponent, rfl, hwhole, hfraction, hexponent⟩ := h
  have hlength := hfraction.length_le hexponent rest
  have hdigits := digitLength_append hwhole (fraction ++ (exponent ++ rest))
  -- what stands behind the digits is no digit, unless nothing does
  have hbehind : fraction ++ exponent = [] ∨ digitLength (fraction ++ (exponent ++ rest)) = 0 := by
    cases hfraction with
    | point => exact Or.inr (digitLength_eq_zero (Or.inl rfl))
    | none =>
      by_cases hne : exponent = []
      · exact Or.inl hne
      · exact Or.inr (hexponent.starts hne rest).1
  unfold numeralLength
  simp only [List.append_assoc, List.length_append, hdigits]
  rcases hbehind with hnil | hzero
  · have hnone : fraction.length + exponent.length = 0 := by
      rw [← List.length_append, hnil, List.length_nil]
    omega
  · rw [hzero, Nat.add_zero, List.drop_left, ← List.drop_drop, List.drop_left]
    omega

/-- **A numeral has digits, of any script, and a few marks in it.** -/
theorem inNumeral (h : IsNumeral cs) : ∀ c ∈ cs, InNumeral c := by
  obtain ⟨whole, fraction, exponent, rfl, hwhole, hfraction, hexponent⟩ := h
  refine List.forall_mem_append.mpr ⟨fun c hc => Or.inl (hwhole c hc),
    List.forall_mem_append.mpr ⟨?_, ?_⟩⟩
  · cases hfraction with
    | none => exact List.forall_mem_nil _
    | point hds =>
      exact List.forall_mem_cons.mpr ⟨Or.inr (by decide), fun c hc => Or.inl (hds c hc)⟩
  · cases hexponent with
    | none => exact List.forall_mem_nil _
    | mark he hsign _ hds =>
      refine List.forall_mem_cons.mpr ⟨Or.inr ?_,
        List.forall_mem_append.mpr ⟨fun c hc => Or.inr ?_, fun c hc => Or.inl (hds c hc)⟩⟩
      · rcases he with rfl | rfl <;> decide
      · rcases hsign with rfl | rfl | rfl
        · cases hc
        · exact List.mem_singleton.mp hc ▸ by decide
        · exact List.mem_singleton.mp hc ▸ by decide

end IsNumeral

/-- What can be read as a number is a numeral. -/
theorem isNumeral_of_parse? (h : (Decimal.Number.parse? cs).isSome) : IsNumeral cs := by
  have hdigits {ds : List Char} (hds : Decimal.Number.Digits ds) : IsDigits ds :=
    fun c hc => Text.isDecimalDigit_of_isDigit (hds c hc)
  obtain ⟨whole, fraction, exponent, rfl, hwhole, hfraction, hexponent, -⟩ :=
    Decimal.Number.exists_parts_of_parse? h
  refine ⟨whole, fraction, exponent, rfl, hdigits hwhole, ?_, ?_⟩
  · cases hfraction with
    | none => exact .none
    | point hds => exact .point (hdigits hds)
  · cases hexponent with
    | none => exact .none
    | unsigned he hne hds => exact IsExponent.mark he (Or.inl rfl) hne (hdigits hds)
    | @signed e sign ds he hsign hne hds =>
      exact .mark he (Or.inr (hsign.imp (congrArg (List.cons · [])) (congrArg (List.cons · []))))
        hne (hdigits hds)

end Scan

end StockFlow
