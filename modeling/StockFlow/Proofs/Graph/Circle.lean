import Mathlib.Logic.Relation
import StockFlow.Proofs.Graph.Order

/-!
# Orders and circles

Nodes of a list can be put behind what they depend on, unless one of them depends on itself through
others of the list.

* `Graph.Relies` — a node depends on another, directly or through members
* `Graph.IsOrder` — each node once, behind all that it relies on
* `Graph.relies_of_place_error` — a node that cannot be placed relies on itself
* `Graph.order_of_isOrder` — a list that is in order already is left as it is
* `Graph.order_or_circle` — there is an order exactly if no node relies on itself
-/

namespace StockFlow.Graph

variable {deps : String → List String} {members list path out : List String} {n m : String}

/-! ## Dependence through members -/

/-- A member depends on another. -/
def Needs (deps : String → List String) (members : List String) (n d : String) : Prop :=
  n ∈ members ∧ d ∈ members ∧ d ∈ deps n

/-- A member depends on another, directly or through members. -/
abbrev Relies (deps : String → List String) (members : List String) : String → String → Prop :=
  Relation.TransGen (Needs deps members)

/-- **An order of the nodes of a list:** each of them once and nothing else, behind all that it
relies on. -/
structure IsOrder (deps : String → List String) (list out : List String) : Prop where
  nodup : out.Nodup
  mem_iff : ∀ n, n ∈ out ↔ n ∈ list
  behind : ∀ n d, Relies deps list n d → out.idxOf d < out.idxOf n

/-- Nodes that can be put in order do not rely on themselves. -/
theorem IsOrder.not_relies_self (h : IsOrder deps list out) (n : String) : ¬Relies deps list n n :=
  fun hself => Nat.lt_irrefl _ (h.behind n n hself)

/-- What is laid out of all nodes is an order of them. -/
theorem Laid.isOrder (h : Laid deps list out) (hall : ∀ n, n ∈ out ↔ n ∈ list) :
    IsOrder deps list out := by
  have hdirect : ∀ {n d}, Needs deps list n d → out.idxOf d < out.idxOf n := fun hneeds =>
    h.idxOf_lt ((hall _).mpr hneeds.1) hneeds.2.2 hneeds.2.1
  refine ⟨h.nodup, hall, fun n d hrelies => ?_⟩
  induction hrelies with
  | single hneeds => exact hdirect hneeds
  | tail _ hneeds ih => exact Nat.lt_trans (hdirect hneeds) ih

/-! ## Nodes that cannot be placed -/

theorem exists_error_of_foldlM {f : List String → String → Except String (List String)}
    {ns : List String} (h : ns.foldlM f out = .error m) : ∃ n ∈ ns, ∃ mid, f mid n = .error m := by
  induction ns generalizing out with
  | nil => cases h
  | cons n ns ih =>
    rw [List.foldlM_cons] at h
    cases hn : f out n with
    | error m' =>
      rw [hn] at h
      cases h
      exact ⟨n, List.mem_cons_self .., out, hn⟩
    | ok mid =>
      rw [hn] at h
      obtain ⟨n', hn', hfails⟩ := ih h
      exact ⟨n', List.mem_cons_of_mem _ hn', hfails⟩

/-- **A node that cannot be placed relies on itself.** The nodes of the path rely on the node that
is to be placed. -/
theorem relies_of_place_error (path out : List String) (n : String) :
    (n ∈ members → ∀ p ∈ path, Relies deps members p n) →
      place deps members path out n = .error m → Relies deps members m m := by
  induction path, out, n using place.induct members with
  | case1 path out n hskip =>
    intro _ h
    rw [place, dif_pos hskip] at h
    cases h
  | case2 path out n hskip hpath =>
    -- the node is met again on its own path
    intro hwaits h
    rw [place, dif_neg hskip, dif_pos hpath] at h
    cases h
    exact hwaits (Decidable.not_not.mp fun hnot => hskip (Or.inl hnot)) _ hpath
  | case3 path out n hskip hpath ih =>
    intro hwaits h
    have hmem : n ∈ members := Decidable.not_not.mp fun hnot => hskip (Or.inl hnot)
    rw [place, dif_neg hskip, dif_neg hpath] at h
    cases hdeps : (deps n).foldlM (place deps members (n :: path)) out with
    | ok placed =>
      rw [hdeps] at h
      cases h
    | error m' =>
      rw [hdeps] at h
      cases h
      obtain ⟨d, hd, mid, hfails⟩ := exists_error_of_foldlM hdeps
      refine ih mid d ?_ hfails
      intro hdmem p hp
      have hneeds : Needs deps members n d := ⟨hmem, hdmem, hd⟩
      rcases List.mem_cons.mp hp with rfl | hlater
      · exact .single hneeds
      · exact (hwaits hmem p hlater).tail hneeds

/-! ## Nodes that are in order already -/

/-- Nothing is done for nodes that are placed already. -/
theorem foldlM_place_of_placed {ns : List String} (h : ∀ n ∈ ns, n ∈ members → n ∈ out) :
    ns.foldlM (place deps members path) out = .ok out := by
  induction ns with
  | nil => rfl
  | cons n ns ih =>
    have hskip : n ∉ members ∨ n ∈ out :=
      Decidable.not_or_of_imp (h n (List.mem_cons_self ..))
    rw [List.foldlM_cons, place, dif_pos hskip]
    exact ih fun m hm => h m (List.mem_cons_of_mem _ hm)

/-- A node is placed at the end if all that it depends on is placed already. -/
theorem place_of_placed (hmem : n ∈ members) (hnew : n ∉ out)
    (hdeps : ∀ d ∈ deps n, d ∈ members → d ∈ out) :
    place deps members [] out n = .ok (out ++ [n]) := by
  have hskip : ¬(n ∉ members ∨ n ∈ out) := fun h => h.elim (fun hnot => hnot hmem) hnew
  rw [place, dif_neg hskip, dif_neg (List.not_mem_nil), foldlM_place_of_placed hdeps]
  rfl

/-- What stands before the first place of a node stands in the list up to there. -/
theorem mem_of_idxOf_lt {before rest : List String} {d : String} (hnew : n ∉ before)
    (h : (before ++ n :: rest).idxOf d < (before ++ n :: rest).idxOf n) : d ∈ before := by
  by_contra hnot
  rw [List.idxOf_append_of_notMem hnew, List.idxOf_append_of_notMem hnot, List.idxOf_cons_self] at h
  omega

/-- **A list that is in order already is left as it is.** -/
theorem order_of_isOrder (h : IsOrder deps list list) : order deps list = .ok list := by
  -- by what is left of the list, with what stands before it placed
  have hrest : ∀ rest before, before ++ rest = list →
      rest.foldlM (place deps list []) before = .ok list := by
    intro rest
    induction rest with
    | nil =>
      rintro before rfl
      exact congrArg _ (List.append_nil before).symm
    | cons n rest ih =>
      intro before heq
      have hmem : n ∈ list := heq ▸ List.mem_append_right _ (List.mem_cons_self ..)
      have hnew : n ∉ before := by
        have hnd := h.nodup
        rw [← heq] at hnd
        exact fun hn => (List.nodup_append.mp hnd).2.2 n hn n (List.mem_cons_self ..) rfl
      have hdeps : ∀ d ∈ deps n, d ∈ list → d ∈ before := by
        intro d hd hdmem
        have hlt := h.behind n d (.single ⟨hmem, hdmem, hd⟩)
        rw [← heq] at hlt
        exact mem_of_idxOf_lt hnew hlt
      rw [List.foldlM_cons, place_of_placed hmem hnew hdeps]
      exact ih (before ++ [n]) (by rw [← heq, List.append_assoc, List.singleton_append])
  exact hrest list [] (List.nil_append list)

/-! ## All together -/

/-- **There is an order of the nodes of a list exactly if none of them relies on itself.** What is
found is an order; a list that is in order already is found as it is, and where there is none a node
is named that relies on itself. -/
theorem order_or_circle (deps : String → List String) (list : List String) :
    ((∃ out, order deps list = .ok out) ↔ ∀ n, ¬Relies deps list n n) ∧
      (∀ out, order deps list = .ok out → IsOrder deps list out) ∧
      (IsOrder deps list list → order deps list = .ok list) ∧
      (∀ n, order deps list = .error n → Relies deps list n n) := by
  have hfound : ∀ out, order deps list = .ok out → IsOrder deps list out := by
    intro out h
    obtain ⟨hlaid, hall⟩ := order_laid h
    exact hlaid.isOrder hall
  have hcircle : ∀ n, order deps list = .error n → Relies deps list n n := by
    intro n h
    obtain ⟨m, _, mid, hfails⟩ := exists_error_of_foldlM h
    exact relies_of_place_error [] mid m (fun _ => nofun) hfails
  refine ⟨⟨?_, ?_⟩, hfound, order_of_isOrder, hcircle⟩
  · rintro ⟨out, h⟩
    exact (hfound out h).not_relies_self
  · intro hnone
    cases h : order deps list with
    | ok out => exact ⟨out, rfl⟩
    | error n => exact absurd (hcircle n h) (hnone n)

-- A node that only leads to a circle is not named.
example : order (fun n => if n = "a" then ["b"] else ["c", "b"]) ["a", "b"] = .error "b" := by
  decide +kernel

end StockFlow.Graph
