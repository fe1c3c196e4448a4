import Mathlib.Data.List.Induction
import Mathlib.Data.List.Nodup
import StockFlow.Model.Definition

/-!
# Statements on top of others

* `firstRepeated?_eq_none_iff` — no name is found twice exactly if names are distinct
* `Stmt.map_name_merge` — names keep the place where they first occur
* `Stmt.mem_merge` — of two statements of a name the one on top is left
-/

namespace StockFlow

theorem firstRepeated?_eq_none_iff {seen names : List String} :
    firstRepeated? seen names = none ↔ names.Nodup ∧ ∀ n ∈ names, n ∉ seen := by
  induction names generalizing seen with
  | nil => exact iff_of_true rfl ⟨List.nodup_nil, nofun⟩
  | cons n rest ih =>
    rw [firstRepeated?]
    by_cases hn : n ∈ seen
    · rw [if_pos hn]
      exact iff_of_false nofun fun h => h.2 n (List.mem_cons_self ..) hn
    · rw [if_neg hn, ih, List.nodup_cons, List.forall_mem_cons]
      constructor
      · rintro ⟨hnd, hnew⟩
        exact ⟨⟨fun hmem => hnew n hmem (List.mem_cons_self ..), hnd⟩, hn,
          fun m hm hseen => hnew m hm (List.mem_cons_of_mem _ hseen)⟩
      · rintro ⟨⟨hnot, hnd⟩, _, hnew⟩
        refine ⟨hnd, fun m hm hseen => ?_⟩
        rcases List.mem_cons.mp hseen with rfl | hseen
        · exact hnot hm
        · exact hnew m hm hseen

/-! ## First occurrences -/

/-- A name at the end of a list occurs there first if it is new. -/
theorem eraseDups_concat (names : List String) (n : String) :
    (names ++ [n]).eraseDups = if n ∈ names then names.eraseDups else names.eraseDups ++ [n] := by
  rw [List.eraseDups_append, List.removeAll, List.filter_singleton]
  by_cases hn : n ∈ names
  · simp [hn]
  · simp [hn, List.eraseDups_cons]

theorem nodup_concat_iff {names : List String} {n : String} :
    (names ++ [n]).Nodup ↔ n ∉ names ∧ names.Nodup := by
  rw [← List.concat_eq_append, List.nodup_concat]

/-- The first occurrences of names are distinct. -/
theorem nodup_eraseDups (names : List String) : names.eraseDups.Nodup := by
  induction names using List.reverseRecOn with
  | nil => exact List.nodup_nil
  | append_singleton names n ih =>
    rw [eraseDups_concat]
    split_ifs with hn
    · exact ih
    · exact nodup_concat_iff.mpr ⟨mt List.mem_eraseDups.mp hn, ih⟩

/-! ## Merged statements -/

namespace Stmt

variable {s t : Stmt} {stmts own : List Stmt} {names : List String}

theorem map_name_putInto (s : Stmt) (stmts : List Stmt) :
    (s.putInto stmts).map name =
      if s.name ∈ stmts.map name then stmts.map name else stmts.map name ++ [s.name] := by
  induction stmts with
  | nil => rfl
  | cons t ts ih =>
    rw [putInto]
    by_cases ht : t.name = s.name
    · rw [if_pos ht, List.map_cons, List.map_cons, ht, if_pos (List.mem_cons_self ..)]
    · have hmem : s.name ∈ t.name :: ts.map name ↔ s.name ∈ ts.map name := by
        rw [List.mem_cons, or_iff_right (Ne.symm ht)]
      rw [if_neg ht, List.map_cons, List.map_cons, ih]
      simp only [hmem]
      split_ifs <;> rfl

/-- What is put into some statements takes the place of the one of its name. -/
theorem mem_putInto (hnd : (stmts.map name).Nodup) :
    t ∈ s.putInto stmts ↔ t = s ∨ t ∈ stmts ∧ t.name ≠ s.name := by
  induction stmts with
  | nil => simp [putInto]
  | cons u us ih =>
    obtain ⟨hnew, hnd'⟩ := List.nodup_cons.mp hnd
    rw [putInto]
    by_cases hu : u.name = s.name
    · have hother : ∀ {t}, t ∈ us → t.name ≠ s.name := fun ht he =>
        hnew (hu ▸ he ▸ List.mem_map_of_mem ht)
      rw [if_pos hu, List.mem_cons, List.mem_cons]
      constructor
      · rintro (rfl | ht)
        · exact Or.inl rfl
        · exact Or.inr ⟨Or.inr ht, hother ht⟩
      · rintro (rfl | ⟨rfl | ht, hne⟩)
        · exact Or.inl rfl
        · exact absurd hu hne
        · exact Or.inr ht
    · rw [if_neg hu, List.mem_cons, List.mem_cons, ih hnd']
      constructor
      · rintro (rfl | rfl | ⟨ht, hne⟩)
        · exact Or.inr ⟨Or.inl rfl, hu⟩
        · exact Or.inl rfl
        · exact Or.inr ⟨Or.inr ht, hne⟩
      · rintro (rfl | ⟨rfl | ht, hne⟩)
        · exact Or.inr (Or.inl rfl)
        · exact Or.inl rfl
        · exact Or.inr (Or.inr ⟨ht, hne⟩)

/-- **Names keep the place where they first occur.** -/
theorem map_name_merge (h : stmts.map name = names.eraseDups) (own : List Stmt) :
    (merge stmts own).map name = (names ++ own.map name).eraseDups := by
  induction own generalizing stmts names with
  | nil => rw [List.map_nil, List.append_nil]; exact h
  | cons s own ih =>
    have hput : (s.putInto stmts).map name = (names ++ [s.name]).eraseDups := by
      rw [map_name_putInto, eraseDups_concat, h]
      simp only [List.mem_eraseDups]
    rw [List.map_cons, List.append_cons]
    exact ih hput

/-- **Of two statements of a name the one on top is left.** -/
theorem mem_merge (hnd : (stmts.map name).Nodup) (hown : (own.map name).Nodup) :
    t ∈ merge stmts own ↔ t ∈ own ∨ t ∈ stmts ∧ t.name ∉ own.map name := by
  induction own generalizing stmts with
  | nil => simp [merge]
  | cons s own ih =>
    obtain ⟨hnew, hown'⟩ := List.nodup_cons.mp hown
    have hput : ((s.putInto stmts).map name).Nodup := by
      rw [map_name_putInto]
      split_ifs with hs
      · exact hnd
      · exact nodup_concat_iff.mpr ⟨hs, hnd⟩
    have hstep : t ∈ merge stmts (s :: own) ↔ t ∈ merge (s.putInto stmts) own := Iff.rfl
    rw [hstep, ih hput hown', mem_putInto hnd, List.mem_cons, List.map_cons, List.mem_cons, not_or]
    constructor
    · rintro (ht | ⟨rfl | ⟨ht, hne⟩, hnot⟩)
      · exact Or.inl (Or.inr ht)
      · exact Or.inl (Or.inl rfl)
      · exact Or.inr ⟨ht, hne, hnot⟩
    · rintro ((rfl | ht) | ⟨ht, hne, hnot⟩)
      · exact Or.inr ⟨Or.inl rfl, hnew⟩
      · exact Or.inl ht
      · exact Or.inr ⟨Or.inr ⟨ht, hne⟩, hnot⟩

theorem putInto_of_notMem (h : s.name ∉ stmts.map name) : s.putInto stmts = stmts ++ [s] := by
  induction stmts with
  | nil => rfl
  | cons t ts ih =>
    obtain ⟨hne, hnot⟩ := not_or.mp (mt List.mem_cons.mpr h)
    rw [putInto, if_neg (Ne.symm hne), ih hnot, List.cons_append]

/-- Statements of new names stand behind the others. -/
theorem merge_of_nodup (h : ((stmts ++ own).map name).Nodup) : merge stmts own = stmts ++ own := by
  induction own generalizing stmts with
  | nil => exact (List.append_nil stmts).symm
  | cons s own ih =>
    have hnew : s.name ∉ stmts.map name := by
      rw [List.map_append, List.map_cons] at h
      exact fun hmem => (List.nodup_append.mp h).2.2 _ hmem _ (List.mem_cons_self ..) rfl
    rw [List.append_cons] at h ⊢
    rw [← ih h, ← putInto_of_notMem hnew]
    rfl

end Stmt

end StockFlow
