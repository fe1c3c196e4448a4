/-!
# Decimals and rounding

A decimal number, and division of natural numbers rounded to the nearest whole number, with a
chosen rule for a quotient that lies exactly between two whole numbers.

* `roundDiv_mul_le`, `le_roundDiv_mul` — the result is within half a unit of the quotient
-/

namespace StockFlow.Decimal

/-- The number `digits · 10 ^ exponent`. -/
structure Number where
  digits : Nat
  exponent : Int
  deriving DecidableEq, Repr

/-- Where a value halfway between two neighbours goes. -/
inductive Tie where
  /-- To the neighbour that is even. -/
  | toEven
  /-- To the larger neighbour. -/
  | up
  deriving DecidableEq, Repr

/-- The whole number nearest to `num / den`. -/
def roundDiv (num den : Nat) (tie : Tie) : Nat :=
  let below := num / den
  let twice := 2 * (num % den)
  if twice < den then below
  else if den < twice then below + 1
  else
    match tie with
    | .up => below + 1
    | .toEven => if below % 2 = 0 then below else below + 1

theorem roundDiv_eq_or (num den : Nat) (tie : Tie) :
    (roundDiv num den tie = num / den ∧ 2 * (num % den) ≤ den) ∨
      (roundDiv num den tie = num / den + 1 ∧ den ≤ 2 * (num % den)) := by
  unfold roundDiv
  simp only
  repeat' split
  all_goals first
    | exact Or.inl ⟨rfl, by omega⟩
    | exact Or.inr ⟨rfl, by omega⟩

/-- **The result exceeds the quotient by at most half a unit.** -/
theorem roundDiv_mul_le (num den : Nat) (tie : Tie) :
    2 * (roundDiv num den tie * den) ≤ 2 * num + den := by
  have hdiv := Nat.div_add_mod num den
  rcases roundDiv_eq_or num den tie with ⟨h, _⟩ | ⟨h, _⟩
  · rw [h, Nat.mul_comm (num / den)]; omega
  · rw [h, Nat.add_mul, Nat.mul_comm (num / den)]; omega

/-- **The result falls short of the quotient by at most half a unit.** -/
theorem le_roundDiv_mul (num : Nat) {den : Nat} (hden : 0 < den) (tie : Tie) :
    2 * num ≤ 2 * (roundDiv num den tie * den) + den := by
  have hdiv := Nat.div_add_mod num den
  rcases roundDiv_eq_or num den tie with ⟨h, _⟩ | ⟨h, _⟩
  · rw [h, Nat.mul_comm (num / den)]; omega
  · rw [h, Nat.add_mul, Nat.mul_comm (num / den)]
    have := Nat.mod_lt num hden
    omega

end StockFlow.Decimal
