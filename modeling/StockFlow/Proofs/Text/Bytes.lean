import Mathlib.Data.List.Lex

/-!
# The order of bytes

* `Text.bytes_lt` — the bytes of texts are in the same order as their characters
-/

namespace StockFlow.Text

/-- The bytes of a text. -/
def bytes (s : String) : List UInt8 := s.toUTF8.data.toList

theorem bytes_eq (s : String) : bytes s = s.toList.flatMap String.utf8EncodeChar := by
  rw [bytes, String.toUTF8_eq_toByteArray, ← String.utf8Encode_toList, List.utf8Encode,
    List.data_toByteArray]

/-- The bytes of a smaller character are smaller, whatever comes behind. -/
theorem encode_append_lt {c d : Char} (h : c < d) (t t' : List UInt8) :
    String.utf8EncodeChar c ++ t < String.utf8EncodeChar d ++ t' := by
  have hlt : c.val.toNat < d.val.toNat := h
  have hlast : d.val.toNat < 0x110000 := by
    rcases d.valid with hlow | hhigh
    · exact Nat.lt_trans hlow (by decide)
    · exact hhigh.2
  simp only [String.utf8EncodeChar]
  generalize c.val.toNat = m at *
  generalize d.val.toNat = n at *
  -- one digit to the base 64 after the other
  have hm : m / 4096 = m / 64 / 64 ∧ m / 262144 = m / 64 / 64 / 64 := by omega
  have hn : n / 4096 = n / 64 / 64 ∧ n / 262144 = n / 64 / 64 / 64 := by omega
  rw [hm.1, hm.2, hn.1, hn.2]
  clear hm hn
  repeat' split
  all_goals
    simp only [List.cons_append, List.cons_lt_cons_iff, UInt8.lt_iff_toNat_lt, ← UInt8.toNat_inj,
      UInt8.toNat_ofNat']
    omega

/-- **The bytes of texts are in the same order as their characters.** -/
theorem bytes_lt {s s' : String} (h : s < s') : bytes s < bytes s' := by
  rw [bytes_eq, bytes_eq]
  have hlex : List.Lex (· < ·) s.toList s'.toList := h
  generalize s.toList = cs at *
  generalize s'.toList = cs' at *
  clear h
  induction hlex with
  | @nil c cs =>
    have hne : (c :: cs).flatMap String.utf8EncodeChar ≠ [] := by simp
    obtain ⟨b, bs, hbytes⟩ := List.exists_cons_of_ne_nil hne
    rw [hbytes]
    exact List.Lex.nil
  | rel hcd =>
    rw [List.flatMap_cons, List.flatMap_cons]
    exact encode_append_lt hcd _ _
  | cons _ ih =>
    rw [List.flatMap_cons, List.flatMap_cons]
    exact List.append_left_lt ih

end StockFlow.Text
