import StockFlow.Decimal.Basic
import Mathlib.Data.Nat.Log
import Mathlib.Tactic.Ring

/-!
# Rounding to the significand of a double

Whole numbers rounded to 53 binary digits, ties going to the even neighbour.

* `roundDiv_mono`, `rounded_mono` — rounding keeps the order
* `rounded_eq_self` — a number that fits is not changed
* `rounded_add_or`, `rounded_sub_or` — what is lost below a number is lost at it or just below it
-/

namespace StockFlow.Decimal

/-! ## Nearest whole numbers -/

theorem div_le_roundDiv (num den : Nat) (tie : Tie) : num / den ≤ roundDiv num den tie := by
  rcases roundDiv_eq_or num den tie with ⟨h, _⟩ | ⟨h, _⟩ <;> omega

theorem roundDiv_le (num den : Nat) (tie : Tie) : roundDiv num den tie ≤ num / den + 1 := by
  rcases roundDiv_eq_or num den tie with ⟨h, _⟩ | ⟨h, _⟩ <;> omega

/-- **Rounding keeps the order.** -/
theorem roundDiv_mono {a b : Nat} (h : a ≤ b) (den : Nat) (tie : Tie) :
    roundDiv a den tie ≤ roundDiv b den tie := by
  rcases (Nat.div_le_div_right h : a / den ≤ b / den).lt_or_eq with hlt | heq
  · exact (roundDiv_le a den tie).trans (hlt.trans_le (div_le_roundDiv b den tie))
  · have hmod : a % den ≤ b % den := by
      have ha := Nat.div_add_mod a den
      have hb := Nat.div_add_mod b den
      rw [heq] at ha
      omega
    unfold roundDiv
    simp only [heq]
    cases tie <;> (simp only; split_ifs <;> omega)

/-- What divides without a rest is not rounded. -/
theorem roundDiv_mul_self (n : Nat) {den : Nat} (hden : 0 < den) (tie : Tie) :
    roundDiv (n * den) den tie = n := by
  unfold roundDiv
  rw [Nat.mul_mod_left, Nat.mul_zero, Nat.mul_div_cancel n hden]
  exact if_pos hden

/-- Rounding is about the quotient alone. -/
theorem roundDiv_mul_mul (num den : Nat) {c : Nat} (hc : 0 < c) (tie : Tie) :
    roundDiv (num * c) (den * c) tie = roundDiv num den tie := by
  unfold roundDiv
  simp only [Nat.mul_div_mul_right num den hc, Nat.mul_mod_mul_right, ← Nat.mul_assoc,
    Nat.mul_lt_mul_right hc]

/-! ## Fifty-three digits -/

/-- How many binary digits a number has beyond those that a significand holds. -/
def excess (n : Nat) : Nat := n.log2 + 1 - 53

/-- **The nearest number whose digits fit into a significand,** ties going to the even one. -/
def rounded (n : Nat) : Nat := roundDiv n (2 ^ excess n) .toEven * 2 ^ excess n

theorem excess_mono {a b : Nat} (h : a ≤ b) : excess a ≤ excess b := by
  have hlog : a.log2 ≤ b.log2 := by
    rw [Nat.log2_eq_log_two, Nat.log2_eq_log_two]
    exact Nat.log_mono_right h
  unfold excess
  omega

theorem div_excess_lt (n : Nat) : n / 2 ^ excess n < 2 ^ 53 := by
  rw [Nat.div_lt_iff_lt_mul (Nat.two_pow_pos _), ← Nat.pow_add]
  refine Nat.lt_log2_self.trans_le (Nat.pow_le_pow_right Nat.two_pos ?_)
  unfold excess
  omega

theorem roundDiv_excess_le (n : Nat) (tie : Tie) : roundDiv n (2 ^ excess n) tie ≤ 2 ^ 53 :=
  (roundDiv_le n _ tie).trans (div_excess_lt n)

/-- Where digits are cut off, those that stay fill a significand. -/
theorem le_div_excess {n : Nat} (h : 0 < excess n) : 2 ^ 52 ≤ n / 2 ^ excess n := by
  have hn : n ≠ 0 := by
    rintro rfl
    exact absurd h (by decide)
  rw [Nat.le_div_iff_mul_le (Nat.two_pow_pos _), ← Nat.pow_add]
  refine (Nat.pow_le_pow_right Nat.two_pos ?_).trans (Nat.log2_self_le hn)
  unfold excess at h ⊢
  omega

/-- **Rounding keeps the order,** also from one power of two to the next. -/
theorem rounded_mono {a b : Nat} (h : a ≤ b) : rounded a ≤ rounded b := by
  rcases (excess_mono h).lt_or_eq with hlt | heq
  · -- the smaller number is rounded at most up to a power of two, the larger at most down to it
    calc
      rounded a ≤ 2 ^ 53 * 2 ^ excess a := Nat.mul_le_mul_right _ (roundDiv_excess_le a _)
      _ = 2 ^ (53 + excess a) := (Nat.pow_add ..).symm
      _ ≤ 2 ^ (52 + excess b) := Nat.pow_le_pow_right Nat.two_pos (by omega)
      _ = 2 ^ 52 * 2 ^ excess b := Nat.pow_add ..
      _ ≤ rounded b := Nat.mul_le_mul_right _
          ((le_div_excess (by omega)).trans (div_le_roundDiv b _ _))
  · unfold rounded
    rw [heq]
    exact Nat.mul_le_mul_right _ (roundDiv_mono h _ _)

/-- **What fits is not rounded.** -/
theorem rounded_eq_self {m k : Nat} (hm : m < 2 ^ 53) : rounded (m * 2 ^ k) = m * 2 ^ k := by
  have hle : excess (m * 2 ^ k) ≤ k := by
    by_cases hn : m * 2 ^ k = 0
    · rw [hn]
      exact Nat.zero_le k
    · have hlt : m * 2 ^ k < 2 ^ (53 + k) := by
        rw [Nat.pow_add]
        exact Nat.mul_lt_mul_of_pos_right hm (Nat.two_pow_pos k)
      have hlog := (Nat.log2_lt hn).mpr hlt
      unfold excess
      omega
  obtain ⟨j, hj⟩ := Nat.exists_eq_add_of_le hle
  have hsplit : m * 2 ^ k = m * 2 ^ j * 2 ^ excess (m * 2 ^ k) := by
    rw [Nat.mul_assoc, ← Nat.pow_add, Nat.add_comm j, ← hj]
  have hround := roundDiv_mul_self (m * 2 ^ j) (Nat.two_pow_pos (excess (m * 2 ^ k))) .toEven
  rw [← hsplit] at hround
  unfold rounded
  rw [hround]
  exact hsplit.symm

theorem rounded_two_pow (k : Nat) : rounded (2 ^ k) = 2 ^ k := by
  have hself := rounded_eq_self (m := 1) (k := k) (by decide)
  rwa [Nat.one_mul] at hself

/-! ## Additions that are lost -/

/-- Too little to move `q` units of `2 ^ k`: less than half a unit, or half a unit where `q` is
even. -/
def Absorbs (k q d : Nat) : Prop := 2 * d < 2 ^ k ∨ 2 * d = 2 ^ k ∧ q % 2 = 0

theorem excess_eq {n k q : Nat} (hlow : 2 ^ 52 ≤ q) (hhigh : q < 2 ^ 53) (hq : n / 2 ^ k = q) :
    excess n = k := by
  have hpow := Nat.two_pow_pos k
  have hle : 2 ^ (52 + k) ≤ n := by
    rw [Nat.pow_add]
    exact (Nat.le_div_iff_mul_le hpow).mp (hq ▸ hlow)
  have hlt : n < 2 ^ (52 + k + 1) := by
    rw [show 52 + k + 1 = 53 + k by omega, Nat.pow_add]
    exact (Nat.div_lt_iff_lt_mul hpow).mp (hq ▸ hhigh)
  have hn : n ≠ 0 := by
    rintro rfl
    exact absurd hle (Nat.not_le.mpr (Nat.two_pow_pos _))
  unfold excess
  rw [(Nat.log2_eq_iff hn).mpr ⟨hle, hlt⟩]
  omega

/-- What less than a unit does to a number whose digits fill a significand. -/
theorem rounded_add {k q d : Nat} (hlow : 2 ^ 52 ≤ q) (hhigh : q < 2 ^ 53) (hd : d < 2 ^ k) :
    (Absorbs k q d → rounded (q * 2 ^ k + d) = q * 2 ^ k) ∧
      (¬Absorbs k q d → rounded (q * 2 ^ k + d) = (q + 1) * 2 ^ k) := by
  have hpow := Nat.two_pow_pos k
  have hdiv : (q * 2 ^ k + d) / 2 ^ k = q := by
    rw [Nat.mul_comm, Nat.mul_add_div hpow, Nat.div_eq_of_lt hd, Nat.add_zero]
  have hmod : (q * 2 ^ k + d) % 2 ^ k = d := by
    rw [Nat.mul_comm, Nat.mul_add_mod, Nat.mod_eq_of_lt hd]
  unfold rounded Absorbs
  rw [excess_eq hlow hhigh hdiv, roundDiv]
  simp only [hdiv, hmod]
  constructor
  · intro h
    congr 1
    split_ifs <;> omega
  · intro h
    congr 1
    split_ifs <;> omega

/-- The same below: a number is as far from the one before it as from the one after it, but where it
is the first with its digits. -/
theorem rounded_sub {k q d : Nat} (hlow : 2 ^ 52 < q) (hhigh : q ≤ 2 ^ 53) (hpos : 0 < d)
    (hd : d < 2 ^ k) :
    (Absorbs k q d → rounded (q * 2 ^ k - d) = q * 2 ^ k) ∧
      (2 * d = 2 ^ k → q % 2 = 1 → rounded (q * 2 ^ k - d) = (q - 1) * 2 ^ k) := by
  obtain ⟨p, rfl⟩ : ∃ p, q = p + 1 := ⟨q - 1, by omega⟩
  have hsplit : (p + 1) * 2 ^ k - d = p * 2 ^ k + (2 ^ k - d) := by
    rw [Nat.add_mul, Nat.one_mul]
    omega
  obtain ⟨hkept, hmoved⟩ := rounded_add (k := k) (q := p) (d := 2 ^ k - d) (by omega) (by omega)
    (by omega)
  rw [hsplit]
  unfold Absorbs at hkept hmoved ⊢
  constructor
  · intro h
    exact hmoved (by omega)
  · intro htie hodd
    exact hkept (Or.inr ⟨by omega, by omega⟩)

/-- **Where an addition is lost,** the number fills a significand and absorbs what was added. -/
theorem exists_absorbs_of_rounded_add {c d : Nat} (hd : 0 < d) (h : rounded (c + d) = c) :
    ∃ k q, 2 ^ 52 ≤ q ∧ q < 2 ^ 53 ∧ c = q * 2 ^ k ∧ Absorbs k q d := by
  have hdiv := Nat.div_add_mod (c + d) (2 ^ excess (c + d))
  have hlt := Nat.mod_lt (c + d) (Nat.two_pow_pos (excess (c + d)))
  have hhigh := div_excess_lt (c + d)
  rw [Nat.mul_comm] at hdiv
  have hk : 0 < excess (c + d) := by
    refine Nat.pos_of_ne_zero ?_
    intro hk
    unfold rounded at h
    rw [hk, Nat.pow_zero, Nat.mul_one] at h
    have := div_le_roundDiv (c + d) 1 .toEven
    omega
  have hlow := le_div_excess hk
  obtain ⟨hkept, hmoved⟩ := rounded_add hlow hhigh hlt
  rw [hdiv, h] at hkept hmoved
  by_cases habs : Absorbs (excess (c + d)) ((c + d) / 2 ^ excess (c + d))
      ((c + d) % 2 ^ excess (c + d))
  · have hc := hkept habs
    refine ⟨_, _, hlow, hhigh, hc, ?_⟩
    rwa [show (c + d) % 2 ^ excess (c + d) = d by omega] at habs
  · have hc := hmoved habs
    rw [Nat.add_mul, Nat.one_mul] at hc
    omega

/-- **Where a subtraction is lost,** likewise. -/
theorem exists_absorbs_of_rounded_sub {a d : Nat} (hd : 0 < d) (hda : d < a)
    (h : rounded (a - d) = a) :
    ∃ k q, 2 ^ 52 < q ∧ q ≤ 2 ^ 53 ∧ a = q * 2 ^ k ∧ Absorbs k q d := by
  have hdiv := Nat.div_add_mod (a - d) (2 ^ excess (a - d))
  have hlt := Nat.mod_lt (a - d) (Nat.two_pow_pos (excess (a - d)))
  have hhigh := div_excess_lt (a - d)
  rw [Nat.mul_comm] at hdiv
  have hk : 0 < excess (a - d) := by
    refine Nat.pos_of_ne_zero ?_
    intro hk
    unfold rounded at h
    rw [hk, Nat.pow_zero, Nat.mul_one] at h
    have hone : roundDiv (a - d) 1 .toEven = a - d := by
      have := roundDiv_mul_self (a - d) Nat.one_pos .toEven
      rwa [Nat.mul_one] at this
    omega
  have hlow := le_div_excess hk
  obtain ⟨hkept, hmoved⟩ := rounded_add hlow hhigh hlt
  rw [hdiv, h] at hkept hmoved
  by_cases habs : Absorbs (excess (a - d)) ((a - d) / 2 ^ excess (a - d))
      ((a - d) % 2 ^ excess (a - d))
  · have ha := hkept habs
    omega
  · have ha := hmoved habs
    refine ⟨_, _, by omega, hhigh, ha, ?_⟩
    rw [Nat.add_mul, Nat.one_mul] at ha
    unfold Absorbs at habs ⊢
    omega

/-- An addition is only lost if less is added than there is. -/
theorem lt_of_rounded_add {c d : Nat} (hd : 0 < d) (h : rounded (c + d) = c) : d < c := by
  obtain ⟨k, q, hlow, _, rfl, habs⟩ := exists_absorbs_of_rounded_add hd h
  have hunit : 2 ^ k ≤ q * 2 ^ k := Nat.le_mul_of_pos_left _ (by omega)
  unfold Absorbs at habs
  omega

/-- A large number that is its own nearest one fills a significand. -/
theorem exists_digits {n : Nat} (hn : 2 ^ 53 ≤ n) (h : rounded n = n) :
    ∃ k q, 2 ^ 52 ≤ q ∧ q < 2 ^ 53 ∧ n = q * 2 ^ k := by
  have hk : 0 < excess n := by
    have := (Nat.le_log2 (show n ≠ 0 by omega)).mpr hn
    unfold excess
    omega
  have hq : n / 2 ^ excess n = roundDiv n (2 ^ excess n) .toEven := by
    unfold rounded at h
    exact Nat.div_eq_of_eq_mul_left (Nat.two_pow_pos _) h.symm
  refine ⟨excess n, n / 2 ^ excess n, le_div_excess hk, div_excess_lt n, ?_⟩
  rw [hq]
  exact h.symm

/-- The larger number has the larger unit, or as large a one and more of them. -/
theorem digits_le {k q j p : Nat} (hq : 2 ^ 52 ≤ q) (hp : p ≤ 2 ^ 53)
    (hpq : p < 2 ^ 53 ∨ 2 ^ 52 < q) (h : q * 2 ^ k ≤ p * 2 ^ j) : k < j ∨ k = j ∧ q ≤ p := by
  rcases lt_trichotomy k j with hlt | rfl | hlt
  · exact Or.inl hlt
  · exact Or.inr ⟨rfl, Nat.le_of_mul_le_mul_right h (Nat.two_pow_pos k)⟩
  · obtain ⟨i, rfl⟩ := Nat.exists_eq_add_of_le hlt
    have hpow := Nat.two_pow_pos j
    have hpow' := Nat.two_pow_pos i
    have hbig : q * 2 ^ (j + 1 + i) = 2 * q * 2 ^ i * 2 ^ j := by
      rw [Nat.pow_add, Nat.pow_succ]
      ring
    rw [hbig] at h
    have hle := Nat.le_of_mul_le_mul_right h hpow
    have : 2 * q ≤ 2 * q * 2 ^ i := Nat.le_mul_of_pos_right _ hpow'
    omega

theorem Absorbs.pos {k q d : Nat} (h : Absorbs k q d) (hd : 0 < d) : 0 < k := by
  refine Nat.pos_of_ne_zero ?_
  rintro rfl
  unfold Absorbs at h
  omega

theorem Absorbs.of_lt {k j q p d : Nat} (h : Absorbs k q d) (hkj : k < j) : Absorbs j p d := by
  have hpow : 2 ^ k < 2 ^ j := Nat.pow_lt_pow_right Nat.one_lt_two hkj
  unfold Absorbs at h ⊢
  omega

theorem two_pow_le_mul {k q : Nat} (hk : 0 < k) (hq : 2 ^ 52 ≤ q) : 2 ^ 53 ≤ q * 2 ^ k := by
  have hpow : 2 ^ 1 ≤ 2 ^ k := Nat.pow_le_pow_right Nat.two_pos hk
  calc
    2 ^ 53 = 2 ^ 52 * 2 ^ 1 := rfl
    _ ≤ q * 2 ^ k := Nat.mul_le_mul hq hpow

/-- **An addition that is lost below a number is lost at that number or just below it.** -/
theorem rounded_add_or {c n d : Nat} (hd : 0 < d) (hn : rounded n = n) (hcn : c ≤ n)
    (hc : rounded (c + d) = c) :
    rounded (n + d) = n ∨
      c ≤ rounded (n - d) ∧ rounded (rounded (n - d) + d) = rounded (n - d) := by
  obtain ⟨k, q, hlow, hhigh, rfl, habs⟩ := exists_absorbs_of_rounded_add hd hc
  have hk := habs.pos hd
  obtain ⟨j, p, hlow', hhigh', rfl⟩ := exists_digits ((two_pow_le_mul hk hlow).trans hcn) hn
  have hhalf : d < 2 ^ j → Absorbs j p d → rounded (p * 2 ^ j + d) = p * 2 ^ j := fun hdj =>
    (rounded_add hlow' hhigh' hdj).1
  have hdk : d < 2 ^ k := by
    unfold Absorbs at habs
    omega
  rcases digits_le hlow hhigh'.le (Or.inl hhigh') hcn with hkj | ⟨rfl, hqp⟩
  · exact Or.inl (hhalf (hdk.trans (Nat.pow_lt_pow_right Nat.one_lt_two hkj)) (habs.of_lt hkj))
  · by_cases habs' : Absorbs k p d
    · exact Or.inl (hhalf hdk habs')
    · -- half a unit moves the odd number but not the even one before it
      unfold Absorbs at habs habs'
      have hbefore := (rounded_sub (by omega) hhigh'.le hd hdk).2 (by omega) (by omega : p % 2 = 1)
      rw [hbefore]
      refine Or.inr ⟨Nat.mul_le_mul_right _ (by omega), ?_⟩
      exact (rounded_add (by omega) (by omega) hdk).1 (Or.inr ⟨by omega, by omega⟩)

/-- **A subtraction that is lost below a number is lost at that number or just below it.** -/
theorem rounded_sub_or {a n d : Nat} (hd : 0 < d) (hda : d < a) (hn : rounded n = n) (han : a ≤ n)
    (ha : rounded (a - d) = a) :
    rounded (n - d) = n ∨
      a ≤ rounded (n - d) ∧ rounded (rounded (n - d) - d) = rounded (n - d) := by
  obtain ⟨k, q, hlow, hhigh, rfl, habs⟩ := exists_absorbs_of_rounded_sub hd hda ha
  have hk := habs.pos hd
  have hbig := (two_pow_le_mul hk hlow.le).trans han
  -- here a power of two is counted in the unit of the numbers below it
  obtain ⟨j, p, hlow', hhigh', rfl⟩ : ∃ j p, 2 ^ 52 < p ∧ p ≤ 2 ^ 53 ∧ n = p * 2 ^ j := by
    obtain ⟨j, p, hlow', hhigh', rfl⟩ := exists_digits hbig hn
    rcases hlow'.lt_or_eq with hlt | rfl
    · exact ⟨j, p, hlt, hhigh'.le, rfl⟩
    · obtain ⟨i, rfl⟩ : ∃ i, j = i + 1 := Nat.exists_eq_succ_of_ne_zero (by
        rintro rfl
        exact absurd hbig (by decide))
      exact ⟨i, 2 ^ 53, by decide, le_rfl, by rw [Nat.pow_succ 2 i]; ring⟩
  have hhalf : d < 2 ^ j → Absorbs j p d → rounded (p * 2 ^ j - d) = p * 2 ^ j := fun hdj =>
    (rounded_sub hlow' hhigh' hd hdj).1
  have hdk : d < 2 ^ k := by
    unfold Absorbs at habs
    omega
  rcases digits_le hlow.le hhigh' (Or.inr hlow) han with hkj | ⟨rfl, hqp⟩
  · exact Or.inl (hhalf (hdk.trans (Nat.pow_lt_pow_right Nat.one_lt_two hkj)) (habs.of_lt hkj))
  · by_cases habs' : Absorbs k p d
    · exact Or.inl (hhalf hdk habs')
    · unfold Absorbs at habs habs'
      have hbefore := (rounded_sub hlow' hhigh' hd hdk).2 (by omega) (by omega)
      rw [hbefore]
      refine Or.inr ⟨Nat.mul_le_mul_right _ (by omega), ?_⟩
      exact (rounded_sub (by omega) (by omega) hd hdk).1 (Or.inr ⟨by omega, by omega⟩)

end StockFlow.Decimal
