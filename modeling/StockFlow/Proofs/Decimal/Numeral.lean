import StockFlow.Decimal.Reading
import StockFlow.Source.Position

/-!
# The characters of a numeral

Digits of other scripts never get into a numeral, so its size in bytes is its length.

* `Decimal.Number.plain_of_parse?` — a numeral is plain text
* `Decimal.Number.exists_parts_of_parse?` — a numeral is digits, perhaps with a point in or around
  them, and perhaps an exponent
-/

namespace StockFlow

/-- Text on one line in which every character is one byte. -/
def Plain (cs : List Char) : Prop := ∀ c ∈ cs, c.utf8Size = 1 ∧ c ≠ '\n'

namespace Plain

variable {c : Char} {cs ds : List Char}

theorem nil : Plain [] := nofun

theorem cons (hc : c.utf8Size = 1 ∧ c ≠ '\n') (h : Plain cs) : Plain (c :: cs) :=
  List.forall_mem_cons.mpr ⟨hc, h⟩

theorem append (h : Plain cs) (h' : Plain ds) : Plain (cs ++ ds) :=
  List.forall_mem_append.mpr ⟨h, h'⟩

theorem byteCount_eq (h : Plain cs) : byteCount cs = cs.length := by
  induction cs with
  | nil => rfl
  | cons c cs ih =>
    obtain ⟨hc, hcs⟩ := List.forall_mem_cons.mp h
    rw [byteCount_cons, hc.1, ih hcs, List.length_cons, Nat.add_comm]

theorem line_afterAll (h : Plain cs) (p : Pos) : (p.afterAll cs).line = p.line := by
  induction cs generalizing p with
  | nil => rfl
  | cons c cs ih =>
    obtain ⟨hc, hcs⟩ := List.forall_mem_cons.mp h
    rw [Pos.afterAll_cons, ih hcs, Pos.after, if_neg hc.2]

theorem of_isDigit (h : c.isDigit = true) : c.utf8Size = 1 ∧ c ≠ '\n' := by
  simp only [Char.isDigit, Bool.and_eq_true, decide_eq_true_eq, UInt32.le_iff_toNat_le] at h
  constructor
  · refine Char.utf8Size_eq_one_iff.mpr (UInt32.le_iff_toNat_le.mpr ?_)
    exact Nat.le_trans h.2 (by decide)
  · rintro rfl
    exact absurd h.1 (by decide)

end Plain

namespace Decimal.Number

/-! ## The parts of a numeral -/

/-- A row of ASCII digits, perhaps empty. -/
def Digits (cs : List Char) : Prop := ∀ c ∈ cs, c.isDigit = true

/-- A fraction: nothing, or a point and digits, perhaps none. -/
inductive Fraction : List Char → Prop
  | none : Fraction []
  | point {ds : List Char} : Digits ds → Fraction ('.' :: ds)

/-- An exponent: nothing, or a mark, perhaps a sign, and digits. -/
inductive Exponent : List Char → Prop
  | none : Exponent []
  | unsigned {e : Char} {ds : List Char} : e = 'e' ∨ e = 'E' → ds ≠ [] → Digits ds →
      Exponent (e :: ds)
  | signed {e sign : Char} {ds : List Char} : e = 'e' ∨ e = 'E' → sign = '-' ∨ sign = '+' →
      ds ≠ [] → Digits ds → Exponent (e :: sign :: ds)

theorem digits_takeWhile (cs : List Char) : Digits (cs.takeWhile Char.isDigit) :=
  fun _ hc => List.all_eq_true.mp List.all_takeWhile _ hc

theorem digits_of_digits? {cs : List Char} (h : (digits? cs).isSome) : cs ≠ [] ∧ Digits cs := by
  unfold digits? at h
  split at h
  · cases h
  · next hall =>
    simp only [Bool.or_eq_true, List.isEmpty_iff, List.any_eq_true, Bool.not_eq_true', not_or,
      not_exists, not_and, Bool.not_eq_false] at hall
    exact hall

theorem exponent_of_exponent? {cs : List Char} (h : (exponent? cs).isSome) : Exponent cs := by
  unfold exponent? at h
  split at h
  · exact .none
  · next e rest =>
    split at h
    · next he =>
      have hmark : e = 'e' ∨ e = 'E' := by simpa using he
      split at h <;> rw [Option.isSome_map] at h
      · obtain ⟨hne, hds⟩ := digits_of_digits? (Option.isSome_of_isSome_bind h)
        exact .signed hmark (Or.inl rfl) hne hds
      · obtain ⟨hne, hds⟩ := digits_of_digits? (Option.isSome_of_isSome_bind h)
        exact .signed hmark (Or.inr rfl) hne hds
      · obtain ⟨hne, hds⟩ := digits_of_digits? (Option.isSome_of_isSome_bind h)
        exact .unsigned hmark hne hds
    · cases h

/-- What `fraction` takes apart is a point with digits and the rest, or else the rest alone. -/
theorem fraction_cases (cs : List Char) :
    (fraction cs).1 = [] ∧ (fraction cs).2 = cs ∨
      cs = '.' :: ((fraction cs).1 ++ (fraction cs).2) ∧ Digits (fraction cs).1 := by
  unfold fraction
  split
  · next rest => exact Or.inr ⟨by simp, digits_takeWhile rest⟩
  · exact Or.inl ⟨rfl, rfl⟩

/-- **A numeral is digits, perhaps a fraction and perhaps an exponent,** and it starts with a digit
or with a point and a digit. -/
theorem exists_parts_of_parse? {cs : List Char} (h : (parse? cs).isSome) :
    ∃ whole fraction exponent, cs = whole ++ (fraction ++ exponent) ∧ Digits whole ∧
      Fraction fraction ∧ Exponent exponent ∧
      (whole ≠ [] ∨ ∃ d ds, fraction = '.' :: d :: ds) := by
  unfold parse? at h
  simp only at h
  split at h
  · cases h
  · next hne =>
    rw [Option.isSome_map] at h
    have hexponent := exponent_of_exponent? h
    rw [Bool.and_eq_true, List.isEmpty_iff, List.isEmpty_iff, not_and] at hne
    have hcs := cs.takeWhile_append_dropWhile (p := Char.isDigit)
    rcases fraction_cases (cs.dropWhile Char.isDigit) with ⟨hnone, hrest⟩ | ⟨hpoint, hds⟩
    · refine ⟨_, [], _, ?_, digits_takeWhile cs, .none, hrest ▸ hexponent, Or.inl ?_⟩
      · exact hcs.symm
      · exact fun hwhole => hne hwhole hnone
    · refine ⟨_, _, _, ?_, digits_takeWhile cs, .point hds, hexponent, ?_⟩
      · rw [List.cons_append, ← hpoint, hcs]
      · rcases Decidable.em (cs.takeWhile Char.isDigit = []) with hwhole | hwhole
        · obtain ⟨d, ds, hd⟩ := List.exists_cons_of_ne_nil (hne hwhole)
          exact Or.inr ⟨d, ds, congrArg _ hd⟩
        · exact Or.inl hwhole

/-! ## Their characters -/

theorem Digits.plain {cs : List Char} (h : Digits cs) : Plain cs :=
  fun c hc => Plain.of_isDigit (h c hc)

theorem Fraction.plain {cs : List Char} (h : Fraction cs) : Plain cs := by
  cases h with
  | none => exact .nil
  | point hds => exact .cons (by decide) hds.plain

theorem Exponent.plain {cs : List Char} (h : Exponent cs) : Plain cs := by
  have hmark {e : Char} (he : e = 'e' ∨ e = 'E') : e.utf8Size = 1 ∧ e ≠ '\n' := by
    rcases he with rfl | rfl <;> decide
  cases h with
  | none => exact .nil
  | unsigned he _ hds => exact .cons (hmark he) hds.plain
  | signed he hsign _ hds =>
    refine .cons (hmark he) (.cons ?_ hds.plain)
    rcases hsign with rfl | rfl <;> decide

/-- **A numeral is plain text.** -/
theorem plain_of_parse? {cs : List Char} (h : (parse? cs).isSome) : Plain cs := by
  obtain ⟨whole, fraction, exponent, rfl, hwhole, hfraction, hexponent, _⟩ :=
    exists_parts_of_parse? h
  exact hwhole.plain.append (hfraction.plain.append hexponent.plain)

end Decimal.Number

end StockFlow
