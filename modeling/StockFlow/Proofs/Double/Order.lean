import StockFlow.Proofs.Double.Packed

/-!
# The order of doubles

Doubles are compared by their levels, and the sum of two is the double nearest to the sum of their
levels.

* `lt_iff`, `le_iff` — comparisons of doubles
* `level_add` — the level after a step
* `stepped_mono`, `le_stepped` — a step keeps the order and leads nowhere back
* `stuck_above`, `stuck_below` — where a step can be lost, it is lost at one of two places
-/

namespace StockFlow.Doubles

open Float.Model Float.Model.UnpackedFloat Decimal

/-! ## Rounded levels -/

/-- **Rounding keeps the order.** -/
theorem roundedLevel_mono {a b : Int} (h : a ≤ b) : roundedLevel a ≤ roundedLevel b := by
  have hnat : ∀ {m n : Nat}, m ≤ n → roundedLevel m ≤ roundedLevel n := by
    intro m n h
    rw [roundedLevel_natCast, roundedLevel_natCast]
    exact Int.ofNat_le.mpr (rounded_mono h)
  have hpos : ∀ n : Nat, 0 ≤ roundedLevel n := by
    intro n
    rw [roundedLevel_natCast]
    exact Int.natCast_nonneg _
  obtain ⟨m, rfl | rfl⟩ := a.eq_nat_or_neg <;> obtain ⟨n, rfl | rfl⟩ := b.eq_nat_or_neg
  · exact hnat (by omega)
  · obtain rfl : m = 0 := by omega
    obtain rfl : n = 0 := by omega
    exact le_rfl
  · rw [roundedLevel_neg]
    have := hpos m
    have := hpos n
    omega
  · rw [roundedLevel_neg, roundedLevel_neg]
    exact Int.neg_le_neg (hnat (by omega))

theorem limited_mono {a b : Int} (h : a ≤ b) : limited a ≤ limited b := by
  unfold limited
  omega

theorem roundedLevel_zero : roundedLevel 0 = 0 := Int.zero_mul _

theorem roundedLevel_topLevel : roundedLevel topLevel = topLevel := by
  unfold topLevel
  rw [roundedLevel_natCast, rounded_two_pow]

/-! ## Sums of unpacked doubles -/

/-- Spreading a significand out does not change its level. -/
theorem apply_decreaseExponent (s : Sign) (m : Nat) {e f : Int} (hf : -1074 ≤ f) (hfe : f ≤ e) :
    s.apply ((decreaseExponent m e f).1 : Int) * 2 ^ (f + 1074).toNat =
      s.apply (m * 2 ^ (e + 1074).toNat) := by
  have hspread : ((decreaseExponent m e f).1 : Int) * 2 ^ (f + 1074).toNat =
      m * 2 ^ (e + 1074).toNat := by
    have hpow : (e + 1074).toNat = (e - f).toNat + (f + 1074).toNat := by omega
    simp only [decreaseExponent]
    rw [Nat.shiftLeft_eq, hpow, pow_add]
    push_cast
    ring
  cases s
  · change -_ * _ = -_
    rw [Int.neg_mul, hspread]
  · exact hspread

theorem add_finite (s s' : Sign) {m m' : Nat} {e e' : Int} (hm : 0 < m) (hm' : 0 < m')
    (he : -1074 ≤ e) (he' : -1074 ≤ e') :
    Canonical (add .binary64 (.finite s m e hm) (.finite s' m' e' hm')) ∧
      level (add .binary64 (.finite s m e hm) (.finite s' m' e' hm')) =
        some (roundedLevel
          (s.apply (m * 2 ^ (e + 1074).toNat) + s'.apply (m' * 2 ^ (e' + 1074).toNat))) := by
  have hmin : -1074 ≤ min e e' := by omega
  rw [← apply_decreaseExponent s m hmin (by omega), ← apply_decreaseExponent s' m' hmin (by omega),
    ← Int.add_mul]
  exact normalize_exact _ hmin

/-- **The sum of two finite unpacked doubles is the nearest one.** -/
theorem add_exact_of_finite {u v : UnpackedFloat} {a b : Int} (hu : Fits u) (hv : Fits v)
    (ha : level u = some a) (hb : level v = some b) (halow : -topLevel < a) (hahigh : a < topLevel)
    (hblow : -topLevel < b) (hbhigh : b < topLevel) :
    Canonical (UnpackedFloat.add .binary64 u v) ∧
      (level (UnpackedFloat.add .binary64 u v)).map limited =
        some (limited (roundedLevel (a + b))) := by
  cases u with
  | notANumber => cases ha
  | infinity s =>
    cases ha
    cases s <;> (simp only [Sign.apply] at halow hahigh; omega)
  | zero s =>
    cases ha
    rw [Int.zero_add]
    cases v with
    | notANumber => cases hb
    | infinity s' =>
      cases hb
      cases s' <;> (simp only [Sign.apply] at hblow hbhigh; omega)
    | zero s' =>
      cases hb
      cases s <;> cases s' <;> exact ⟨trivial, rfl⟩
    | finite s' m' e' hm' =>
      refine ⟨hv.1, ?_⟩
      show (level (.finite s' m' e' hm')).map limited = _
      rw [hb, Option.map_some, roundedLevel_level hv.1 hb]
  | finite s m e hm =>
    cases v with
    | notANumber => cases hb
    | infinity s' =>
      cases hb
      cases s' <;> (simp only [Sign.apply] at hblow hbhigh; omega)
    | zero s' =>
      cases hb
      refine ⟨hu.1, ?_⟩
      show (level (.finite s m e hm)).map limited = _
      rw [ha, Option.map_some, Int.add_zero, roundedLevel_level hu.1 ha]
    | finite s' m' e' hm' =>
      obtain ⟨hcanon, hlevel⟩ := add_finite s s' hm hm' hu.1.2.1 hv.1.2.1
      cases ha
      cases hb
      exact ⟨hcanon, by rw [hlevel, Option.map_some]⟩

/-- The same where the other one may be infinite, if what is added to it is positive. -/
theorem add_exact {u v : UnpackedFloat} {a b : Int} (hu : Fits u) (hv : Fits v)
    (ha : level u = some a) (hb : level v = some b) (hlow : -topLevel < a) (hpos : 0 < b)
    (hhigh : b < topLevel) : Canonical (UnpackedFloat.add .binary64 u v) ∧
      (level (UnpackedFloat.add .binary64 u v)).map limited =
        some (limited (roundedLevel (a + b))) := by
  have htop := topLevel_pos
  by_cases hfin : a < topLevel
  · exact add_exact_of_finite hu hv ha hb hlow hfin (by omega) hhigh
  · have hinf : u = .infinity .positive := by
      cases u with
      | notANumber => cases ha
      | zero s =>
        cases ha
        omega
      | infinity s =>
        cases ha
        cases s with
        | negative => simp only [Sign.apply] at hlow; omega
        | positive => rfl
      | finite s m e hm =>
        cases ha
        exact absurd (level_within hu).2 hfin
    subst hinf
    cases ha
    have hle : topLevel ≤ roundedLevel (topLevel + b) := by
      have hmono := roundedLevel_mono (a := topLevel) (b := topLevel + b) (by omega)
      rwa [roundedLevel_topLevel] at hmono
    have hresult : UnpackedFloat.add .binary64 (.infinity .positive) v = .infinity .positive := by
      cases v with
      | notANumber => cases hb
      | infinity s' =>
        cases hb
        cases s' <;> (simp only [Sign.apply] at hpos hhigh; omega)
      | zero s' => rfl
      | finite s' m' e' hm' => rfl
    rw [hresult]
    refine ⟨trivial, congrArg some ?_⟩
    show limited topLevel = limited (roundedLevel (topLevel + b))
    unfold limited
    omega

/-! ## Differences of unpacked doubles -/

theorem apply_neg (s : Sign) (n : Int) : (-s).apply n = -s.apply n :=
  match s with
  | .positive => rfl
  | .negative => (Int.neg_neg n).symm

/-- **To subtract is to add the opposite.** -/
theorem sub_eq_add_neg (u v : UnpackedFloat) :
    UnpackedFloat.sub .binary64 u v = UnpackedFloat.add .binary64 u v.neg := by
  cases u with
  | finite s m e hm =>
    cases v with
    | finite s' m' e' hm' =>
      show normalize .binary64 (_ - _) _ _ = normalize .binary64 (_ + (-s').apply _) _ _
      rw [apply_neg, Int.sub_eq_add_neg]
    | notANumber | infinity s' | zero s' => rfl
  | notANumber | infinity s | zero s => cases v <;> rfl

theorem fits_neg {v : UnpackedFloat} (h : Fits v) : Fits v.neg := by
  cases v with
  | finite s m e hm => exact h
  | notANumber | infinity s | zero s => trivial

theorem level_neg {v : UnpackedFloat} {b : Int} (h : level v = some b) :
    level v.neg = some (-b) := by
  cases v with
  | notANumber => cases h
  | infinity s =>
    cases h
    exact congrArg some (apply_neg s _)
  | zero s =>
    cases h
    rfl
  | finite s m e hm =>
    cases h
    exact congrArg some (apply_neg s _)

/-! ## Doubles -/

/-- **The level of a double:** how many times the smallest double it is. -/
def level? (x : Float) : Option Int := level x.toModel.unpack

variable {x y z d : Float} {a b c : Int}

theorem fits (x : Float) : Fits x.toModel.unpack := fits_unpack _

theorem compare_eq (ha : level? x = some a) (hb : level? y = some b) :
    x.toModel.unpack.compare y.toModel.unpack = some (compare a b) :=
  compare_exact (fits x) (fits y) ha hb

theorem lt_iff_compare : x < y ↔ x.toModel.unpack.compare y.toModel.unpack = some .lt := by
  show decide ((x.toModel.unpack.compare y.toModel.unpack == some .lt) = true) = true ↔ _
  rw [decide_eq_true_eq, beq_iff_eq]

theorem le_iff_compare :
    x ≤ y ↔ (x.toModel.unpack.compare y.toModel.unpack).any (·.isLE) = true := by
  show decide (_ = true) = true ↔ _
  rw [decide_eq_true_eq]
  rfl

theorem lt_iff (ha : level? x = some a) (hb : level? y = some b) : x < y ↔ a < b := by
  rw [lt_iff_compare, compare_eq ha hb, Option.some.injEq, Int.compare_eq_lt]

theorem le_iff (ha : level? x = some a) (hb : level? y = some b) : x ≤ y ↔ a ≤ b := by
  rw [le_iff_compare, compare_eq ha hb, Option.any_some, Int.isLE_compare]

theorem exists_level_of_compare (h : x.toModel.unpack.compare y.toModel.unpack ≠ none) :
    ∃ a b, level? x = some a ∧ level? y = some b := by
  unfold level?
  generalize x.toModel.unpack = u, y.toModel.unpack = v at h
  cases u <;> cases v <;> first | exact ⟨_, _, rfl, rfl⟩ | exact absurd rfl h

/-- Doubles that compare have levels. -/
theorem exists_level_of_lt (h : x < y) : ∃ a b, level? x = some a ∧ level? y = some b ∧ a < b := by
  obtain ⟨a, b, ha, hb⟩ :=
    exists_level_of_compare (x := x) (y := y) (by rw [lt_iff_compare.mp h]; exact nofun)
  exact ⟨a, b, ha, hb, (lt_iff ha hb).mp h⟩

theorem exists_level_of_le (h : x ≤ y) : ∃ a b, level? x = some a ∧ level? y = some b ∧ a ≤ b := by
  obtain ⟨a, b, ha, hb⟩ := exists_level_of_compare (x := x) (y := y) fun hnone => by
    have hle := le_iff_compare.mp h
    rw [hnone] at hle
    cases hle
  exact ⟨a, b, ha, hb, (le_iff ha hb).mp h⟩

theorem level_zero : level? 0 = some 0 := by decide +kernel

theorem exists_level_of_isFinite (h : x.isFinite = true) :
    ∃ a, level? x = some a ∧ -topLevel < a ∧ a < topLevel := by
  have htop := topLevel_pos
  have hfits := fits x
  change x.toModel.unpack.isFinite = true at h
  show ∃ a, level x.toModel.unpack = some a ∧ _
  cases hu : x.toModel.unpack with
  | notANumber => rw [hu] at h; cases h
  | infinity s => rw [hu] at h; cases h
  | zero s => exact ⟨0, rfl, by omega, htop⟩
  | finite s m e hm =>
    rw [hu] at hfits
    exact ⟨_, rfl, level_within hfits⟩

/-! ## Steps -/

/-- The level after a step. -/
def stepped (b a : Int) : Int := limited (roundedLevel (a + b))

/-- **The level of a sum** with a finite and positive step. -/
theorem level_add (ha : level? x = some a) (hd : level? d = some b) (hlow : -topLevel < a)
    (hpos : 0 < b) (hhigh : b < topLevel) :
    level? (x + d) = some (stepped b a) := by
  obtain ⟨hcanon, hlevel⟩ := add_exact (fits x) (fits d) ha hd hlow hpos hhigh
  exact (level_unpack_pack hcanon).trans hlevel

/-- A step keeps the order. -/
theorem stepped_mono (h : a ≤ c) : stepped b a ≤ stepped b c :=
  limited_mono (roundedLevel_mono (by omega))

theorem level_bounds (h : level? x = some a) : -topLevel ≤ a ∧ a ≤ topLevel := by
  have htop := topLevel_pos
  have hfits := fits x
  unfold level? at h
  cases hu : x.toModel.unpack with
  | notANumber => rw [hu] at h; cases h
  | infinity s =>
    rw [hu] at h
    cases h
    cases s <;> (simp only [Sign.apply]; omega)
  | zero s =>
    rw [hu] at h
    cases h
    omega
  | finite s m e hm =>
    rw [hu] at h hfits
    cases h
    have hwithin := level_within hfits
    exact ⟨hwithin.1.le, hwithin.2.le⟩

theorem canonical_of_fits {u : UnpackedFloat} (h : Fits u) : Canonical u := by
  cases u with
  | finite s m e hm => exact h.1
  | notANumber | infinity s | zero s => trivial

/-- **A step leads nowhere back.** -/
theorem le_stepped (h : level? x = some a) (hb : 0 ≤ b) : a ≤ stepped b a := by
  obtain ⟨hlow, hhigh⟩ := level_bounds h
  calc
    a = limited (roundedLevel a) := by
      rw [roundedLevel_level (canonical_of_fits (fits x)) h, limited_of_le hlow hhigh]
    _ ≤ stepped b a := limited_mono (roundedLevel_mono (by omega))

/-- The level after a step back. -/
def steppedBack (b a : Int) : Int := limited (roundedLevel (a - b))

/-- **The level of a difference** of a finite double and a finite and positive step. -/
theorem level_sub (ha : level? x = some a) (hd : level? d = some b) (hlow : -topLevel < a)
    (hbelow : a < topLevel) (hpos : 0 < b) (hhigh : b < topLevel) :
    level? (x - d) = some (steppedBack b a) := by
  obtain ⟨hcanon, hlevel⟩ := add_exact_of_finite (fits x) (fits_neg (fits d)) ha (level_neg hd) hlow
    hbelow (by omega) (by omega)
  rw [← sub_eq_add_neg] at hcanon hlevel
  rw [← Int.sub_eq_add_neg] at hlevel
  exact (level_unpack_pack hcanon).trans hlevel

theorem roundedLevel_of_level (h : level? x = some a) : roundedLevel a = a :=
  roundedLevel_level (canonical_of_fits (fits x)) h

theorem steppedBack_le (h : level? x = some a) (hb : 0 ≤ b) : steppedBack b a ≤ a := by
  obtain ⟨hlow, hhigh⟩ := level_bounds h
  calc
    steppedBack b a ≤ limited (roundedLevel a) := limited_mono (roundedLevel_mono (by omega))
    _ = a := by rw [roundedLevel_of_level h, limited_of_le hlow hhigh]

/-! ## Steps that are lost -/

theorem le_of_limited_le {n : Int} (h : limited n ≤ c) (hc : c < topLevel) : n ≤ c := by
  unfold limited at h
  omega

theorem stepped_natCast {m n : Nat} (h : (rounded (n + m) : Int) ≤ topLevel) :
    stepped m n = rounded (n + m) := by
  have htop := topLevel_pos
  unfold stepped
  rw [← Int.natCast_add, roundedLevel_natCast, limited_of_le (by omega) h]

theorem stepped_neg_natCast {m n : Nat} (hmn : m ≤ n) (h : (rounded (n - m) : Int) ≤ topLevel) :
    stepped m (-n) = -rounded (n - m) := by
  have htop := topLevel_pos
  have hdiff : -(n : Int) + m = -((n - m : Nat) : Int) := by omega
  unfold stepped
  rw [hdiff, roundedLevel_neg, roundedLevel_natCast, limited_of_le (by omega) (by omega)]

/-- **A step that is lost on a way up is lost at its end or a step before it,** if that way begins
at zero or above. -/
theorem stuck_above {n : Int} (hb : 0 < b) (hc : 0 ≤ c) (hcself : roundedLevel c = c)
    (hself : roundedLevel n = n) (hcn : c ≤ n) (hn : n < topLevel) (hstuck : stepped b c ≤ c) :
    stepped b n ≤ n ∨ c ≤ steppedBack b n ∧ stepped b (steppedBack b n) ≤ steppedBack b n := by
  have htop := topLevel_pos
  obtain ⟨n, rfl⟩ := Int.eq_ofNat_of_zero_le (hc.trans hcn)
  obtain ⟨c, rfl⟩ := Int.eq_ofNat_of_zero_le hc
  obtain ⟨b, rfl⟩ := Int.eq_ofNat_of_zero_le hb.le
  have hround : rounded (c + b) ≤ c := by
    have hle := le_of_limited_le hstuck (by omega)
    rw [← Int.natCast_add, roundedLevel_natCast] at hle
    exact Int.ofNat_le.mp hle
  rw [roundedLevel_natCast] at hcself hself
  have hlost : rounded (c + b) = c := by
    have hmono := rounded_mono (show c ≤ c + b by omega)
    omega
  have hbc := lt_of_rounded_add (by omega) hlost
  rcases rounded_add_or (n := n) (by omega) (by omega) (by omega) hlost with h | ⟨hle, h⟩
  · refine Or.inl ?_
    rw [stepped_natCast (by omega), h]
  · have hback : steppedBack b n = rounded (n - b) := by
      have hmono := rounded_mono (show n - b ≤ n by omega)
      unfold steppedBack
      rw [← Int.ofNat_sub (by omega), roundedLevel_natCast, limited_of_le (by omega) (by omega)]
    have hmono := rounded_mono (show n - b ≤ n by omega)
    rw [hback]
    refine Or.inr ⟨by omega, ?_⟩
    rw [stepped_natCast (by omega), h]

/-- **A step that is lost on a way up is lost at its begin or a step after it,** if that way ends
below zero. -/
theorem stuck_below {n : Int} (hb : 0 < b) (hc : c < 0) (hcself : roundedLevel c = c)
    (hself : roundedLevel n = n) (hnc : n ≤ c) (hn : -topLevel < n) (hstuck : stepped b c ≤ c) :
    stepped b n ≤ n ∨ stepped b (stepped b n) ≤ stepped b n := by
  have htop := topLevel_pos
  obtain ⟨n, rfl⟩ : ∃ m : Nat, n = -m := ⟨n.natAbs, by omega⟩
  obtain ⟨c, rfl⟩ : ∃ m : Nat, c = -m := ⟨c.natAbs, by omega⟩
  obtain ⟨b, rfl⟩ := Int.eq_ofNat_of_zero_le hb.le
  rw [roundedLevel_neg, roundedLevel_natCast] at hcself hself
  have hbc : b < c := by
    by_contra hcb
    have hnonneg := limited_mono (roundedLevel_mono (show (0 : Int) ≤ -(c : Int) + b by omega))
    rw [roundedLevel_zero, limited_of_le (by omega) (by omega)] at hnonneg
    unfold stepped at hstuck
    omega
  have hmono : rounded (c - b) ≤ c := (rounded_mono (show c - b ≤ c by omega)).trans (by omega)
  rw [stepped_neg_natCast hbc.le (by omega)] at hstuck
  have hmono' : rounded (n - b) ≤ n := (rounded_mono (show n - b ≤ n by omega)).trans (by omega)
  have hstep : stepped b (-n) = -rounded (n - b) := stepped_neg_natCast (by omega) (by omega)
  rcases rounded_sub_or (n := n) (by omega) hbc (by omega) (by omega)
    (show rounded (c - b) = c by omega) with h | ⟨hle, h⟩
  · refine Or.inl ?_
    rw [hstep, h]
  · refine Or.inr ?_
    rw [hstep, stepped_neg_natCast (by omega) (by omega), h]

end StockFlow.Doubles
