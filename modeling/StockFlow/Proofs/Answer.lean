import Mathlib.Data.List.Forall2
import Mathlib.Data.List.Nodup
import Mathlib.Data.List.Perm.Basic
import Std.Data.TreeMap.Lemmas

/-!
# Answers that are not faults

What it means that a computation which may fail has given an answer, and what is found in a list of
named things.

* `bind_eq_ok`, `mapError_eq_ok`, `mapM_eq_ok`, `forM_eq_ok` — an answer comes from answers
* `mapM_perm` — the order of a list is the order of the answers
* `exists_of_mem_left`, `exists_of_mem_right` — members of lists that stand side by side
* `find?_eq_of_nodup_map`, `lookup_eq_some_of_mem`, `getElem?_ofList_of_mem` — where names are
  distinct, what stands under a name is found
-/

namespace StockFlow

variable {ε ε' α β : Type}

/-! ## Answers -/

theorem bind_eq_ok {x : Except ε α} {f : α → Except ε β} {b : β} :
    x >>= f = .ok b ↔ ∃ a, x = .ok a ∧ f a = .ok b := by
  cases x with
  | error e => exact ⟨nofun, nofun⟩
  | ok a =>
    constructor
    · intro h
      exact ⟨a, rfl, h⟩
    · rintro ⟨_, ha, h⟩
      cases ha
      exact h

theorem map_eq_ok {x : Except ε α} {f : α → β} {b : β} :
    f <$> x = .ok b ↔ ∃ a, x = .ok a ∧ f a = b := by
  cases x with
  | error e => exact ⟨nofun, nofun⟩
  | ok a =>
    constructor
    · intro h
      exact ⟨a, rfl, Except.ok.inj h⟩
    · rintro ⟨_, ha, rfl⟩
      cases ha
      rfl

theorem mapError_eq_ok {x : Except ε α} {f : ε → ε'} {a : α} :
    x.mapError f = .ok a ↔ x = .ok a := by
  cases x with
  | error e => exact ⟨nofun, nofun⟩
  | ok a' => exact ⟨fun h => congrArg _ (Except.ok.inj h), fun h => congrArg _ (Except.ok.inj h)⟩

/-- Answers for all members of a list are the answers for each. -/
theorem mapM_eq_ok {f : α → Except ε β} {xs : List α} {ys : List β} :
    xs.mapM f = .ok ys ↔ List.Forall₂ (fun x y => f x = .ok y) xs ys := by
  induction xs generalizing ys with
  | nil =>
    rw [List.mapM_nil, List.forall₂_nil_left_iff]
    exact ⟨fun h => (Except.ok.inj h).symm, fun h => by rw [h]; rfl⟩
  | cons x xs ih =>
    rw [List.mapM_cons, bind_eq_ok, List.forall₂_cons_left_iff]
    constructor
    · rintro ⟨y, hy, h⟩
      obtain ⟨ys', hys, h⟩ := bind_eq_ok.mp h
      exact ⟨y, ys', hy, ih.mp hys, (Except.ok.inj h).symm⟩
    · rintro ⟨y, ys', hy, hys, rfl⟩
      exact ⟨y, hy, bind_eq_ok.mpr ⟨ys', ih.mpr hys, rfl⟩⟩

/-- The order of a list is the order of the answers. -/
theorem mapM_perm {f : α → Except ε β} {xs xs' : List α} {ys : List β} (hp : xs'.Perm xs)
    (h : xs.mapM f = .ok ys) : ∃ ys', xs'.mapM f = .ok ys' ∧ ys'.Perm ys := by
  obtain ⟨ys', hys', hperm⟩ := List.perm_comp_forall₂ hp (mapM_eq_ok.mp h)
  exact ⟨ys', mapM_eq_ok.mpr hys', hperm⟩

theorem forM_eq_ok {f : α → Except ε Unit} {xs : List α} :
    xs.forM f = .ok () ↔ ∀ x ∈ xs, f x = .ok () := by
  induction xs with
  | nil => exact iff_of_true rfl nofun
  | cons x xs ih =>
    show (f x >>= fun _ => xs.forM f) = .ok () ↔ _
    rw [bind_eq_ok, List.forall_mem_cons, ← ih]
    constructor
    · rintro ⟨_, hx, h⟩
      exact ⟨hx, h⟩
    · rintro ⟨hx, h⟩
      exact ⟨_, hx, h⟩

/-! ## Lists side by side -/

theorem exists_of_mem_left {R : α → β → Prop} {xs : List α} {ys : List β}
    (h : List.Forall₂ R xs ys) {x : α} (hx : x ∈ xs) : ∃ y ∈ ys, R x y := by
  induction h with
  | nil => cases hx
  | @cons x' y' _ _ hr _ ih =>
    rcases List.mem_cons.mp hx with rfl | hlater
    · exact ⟨y', List.mem_cons_self .., hr⟩
    · obtain ⟨y, hy, hxy⟩ := ih hlater
      exact ⟨y, List.mem_cons_of_mem _ hy, hxy⟩

theorem exists_of_mem_right {R : α → β → Prop} {xs : List α} {ys : List β}
    (h : List.Forall₂ R xs ys) {y : β} (hy : y ∈ ys) : ∃ x ∈ xs, R x y := by
  obtain ⟨x, hx, hxy⟩ := exists_of_mem_left h.flip hy
  exact ⟨x, hx, hxy⟩

theorem map_eq_of_forall₂ {γ : Type} {f : α → γ} {g : β → γ} {xs : List α} {ys : List β}
    (h : List.Forall₂ (fun x y => g y = f x) xs ys) : ys.map g = xs.map f := by
  induction h with
  | nil => rfl
  | cons hxy _ ih => rw [List.map_cons, List.map_cons, hxy, ih]

theorem forall₂_attach_iff {R : α → β → Prop} {xs : List α} {ys : List β} :
    List.Forall₂ (fun x y => R x.val y) xs.attach ys ↔ List.Forall₂ R xs ys := by
  rw [← List.forall₂_map_left_iff, List.attach_map_subtype_val]

theorem exists_forall₂_iff {R : α → β → Prop} {xs : List α} :
    (∃ ys, List.Forall₂ R xs ys) ↔ ∀ x ∈ xs, ∃ y, R x y := by
  constructor
  · rintro ⟨ys, h⟩ x hx
    obtain ⟨y, _, hxy⟩ := exists_of_mem_left h hx
    exact ⟨y, hxy⟩
  · intro h
    induction xs with
    | nil => exact ⟨[], .nil⟩
    | cons x xs ih =>
      obtain ⟨hx, hxs⟩ := List.forall_mem_cons.mp h
      obtain ⟨y, hy⟩ := hx
      obtain ⟨ys, hys⟩ := ih hxs
      exact ⟨y :: ys, .cons hy hys⟩

/-! ## Named things -/

/-- Where keys are distinct, a member is found by its key. -/
theorem find?_eq_of_nodup_map [DecidableEq β] {key : α → β} {xs : List α}
    (hnd : (xs.map key).Nodup) {a : α} (ha : a ∈ xs) :
    xs.find? (fun x => key x = key a) = some a := by
  induction xs with
  | nil => simp at ha
  | cons x xs ih =>
    rw [List.map_cons, List.nodup_cons] at hnd
    rcases List.mem_cons.mp ha with rfl | hlater
    · simp
    · have hne : key x ≠ key a := fun he => hnd.1 (he ▸ List.mem_map_of_mem hlater)
      rw [List.find?_cons_of_neg (by simpa using hne)]
      exact ih hnd.2 hlater

/-- Where keys are distinct, what is found by a key does not depend on the order. -/
theorem find?_eq_of_perm [DecidableEq β] {key : α → β} {xs ys : List α}
    (hnd : (xs.map key).Nodup) (h : ys.Perm xs) (k : β) :
    ys.find? (fun x => key x = k) = xs.find? (fun x => key x = k) := by
  cases hx : xs.find? fun x => key x = k with
  | none =>
    refine List.find?_eq_none.mpr fun x hxs => ?_
    exact List.find?_eq_none.mp hx x (h.mem_iff.mp hxs)
  | some a =>
    have hkey : key a = k := by simpa using List.find?_some hx
    have hmem := h.mem_iff.mpr (List.mem_of_find?_eq_some hx)
    rw [← hkey]
    exact find?_eq_of_nodup_map ((h.map key).nodup_iff.mpr hnd) hmem

/-- **Where names are distinct, what stands under a name is found.** -/
theorem lookup_eq_some_of_mem [DecidableEq α] {xs : List (α × β)} (hnd : (xs.map Prod.fst).Nodup)
    {a : α} {b : β} (h : (a, b) ∈ xs) : xs.lookup a = some b := by
  induction xs with
  | nil => cases h
  | cons x xs ih =>
    obtain ⟨hnew, hnd'⟩ := List.nodup_cons.mp hnd
    rw [List.lookup_cons]
    rcases List.mem_cons.mp h with rfl | hlater
    · rw [beq_self_eq_true]
    · have hne : a ≠ x.1 := fun he => hnew (he ▸ List.mem_map_of_mem hlater)
      rw [beq_false_of_ne hne]
      exact ih hnd' hlater

theorem mem_of_lookup_eq_some [DecidableEq α] {xs : List (α × β)} {a : α} {b : β}
    (h : xs.lookup a = some b) : (a, b) ∈ xs := by
  induction xs with
  | nil => cases h
  | cons x xs ih =>
    rw [List.lookup_cons] at h
    by_cases he : a = x.1
    · rw [he, beq_self_eq_true] at h
      cases h
      rw [he]
      exact List.mem_cons_self ..
    · rw [beq_false_of_ne he] at h
      exact List.mem_cons_of_mem _ (ih h)

/-- A map made of distinct names holds what stands under each. -/
theorem getElem?_ofList_of_mem {xs : List (String × β)} (hnd : (xs.map Prod.fst).Nodup)
    {n : String} {b : β} (h : (n, b) ∈ xs) : (Std.TreeMap.ofList xs)[n]? = some b := by
  refine Std.TreeMap.getElem?_ofList_of_mem Std.ReflCmp.compare_self ?_ h
  refine (List.pairwise_map.mp hnd).imp fun hne he => hne ?_
  exact Std.LawfulEqCmp.compare_eq_iff_eq.mp he

theorem lookup_eq_some_iff [DecidableEq α] {xs : List (α × β)} (hnd : (xs.map Prod.fst).Nodup)
    {a : α} {b : β} : xs.lookup a = some b ↔ (a, b) ∈ xs :=
  ⟨mem_of_lookup_eq_some, lookup_eq_some_of_mem hnd⟩

/-- Of a map made of distinct names, exactly what stands under a name is found there. -/
theorem getElem?_ofList_eq_some_iff {xs : List (String × β)} (hnd : (xs.map Prod.fst).Nodup)
    {n : String} {b : β} : (Std.TreeMap.ofList xs)[n]? = some b ↔ (n, b) ∈ xs := by
  refine ⟨fun h => ?_, getElem?_ofList_of_mem hnd⟩
  by_cases hmem : n ∈ xs.map Prod.fst
  · obtain ⟨⟨n', b'⟩, hb', rfl⟩ := List.mem_map.mp hmem
    rw [getElem?_ofList_of_mem hnd hb'] at h
    exact Option.some.inj h ▸ hb'
  · have hnot : (xs.map Prod.fst).contains n = false := by
      rw [← Bool.not_eq_true, List.contains_iff_mem]
      exact hmem
    rw [Std.TreeMap.getElem?_ofList_of_contains_eq_false hnot] at h
    cases h

/-- Maps made of the same distinct names hold the same. -/
theorem getElem?_ofList_perm {xs xs' : List (String × β)} (hnd : (xs.map Prod.fst).Nodup)
    (hp : xs'.Perm xs) (n : String) :
    (Std.TreeMap.ofList xs')[n]? = (Std.TreeMap.ofList xs)[n]? := by
  refine Option.ext fun b => ?_
  rw [getElem?_ofList_eq_some_iff hnd,
    getElem?_ofList_eq_some_iff ((hp.map Prod.fst).nodup_iff.mpr hnd), hp.mem_iff]

/-- What is kept under its name keeps names distinct. -/
theorem map_filterMap_sublist {γ : Type} {f : α → Option β} {g : β → γ} {h : α → γ}
    (hf : ∀ x y, f x = some y → g y = h x) (xs : List α) :
    ((xs.filterMap f).map g).Sublist (xs.map h) := by
  induction xs with
  | nil => exact List.Sublist.refl _
  | cons x xs ih =>
    cases hx : f x with
    | none =>
      rw [List.filterMap_cons_none hx, List.map_cons]
      exact ih.cons _
    | some y =>
      rw [List.filterMap_cons_some hx, List.map_cons, List.map_cons, hf x y hx]
      exact ih.cons_cons _

end StockFlow
