import StockFlow.Graph.Order
import Mathlib.Data.List.Nodup

/-!
# Nodes stand behind what they depend on

* `Laid` — lists in which every node stands behind the members it depends on
* `Laid.of_place` — `place` keeps such a list and adds the node
* `order_laid` — `order` gives such a list of exactly the nodes asked for
* `Laid.not_dependsOn_later` — in it no node depends on itself or on a later one
* `order_isOk_of_laid` — where the nodes can be laid out at all, there is an order, in whatever
  order they are given
-/

namespace StockFlow.Graph

variable {deps : String → List String} {members path out out' : List String} {n : String}

/-- A list of members, each behind all members that it depends on and none twice. -/
inductive Laid (deps : String → List String) (members : List String) : List String → Prop
  | nil : Laid deps members []
  | snoc {out : List String} {n : String} (before : Laid deps members out) (member : n ∈ members)
      (new : n ∉ out) (behind : ∀ d ∈ deps n, d ∈ members → d ∈ out) :
      Laid deps members (out ++ [n])

namespace Laid

theorem nodup (h : Laid deps members out) : out.Nodup := by
  induction h with
  | nil => exact List.nodup_nil
  | snoc _ _ hnew _ ih =>
    refine List.nodup_append.mpr ⟨ih, List.nodup_singleton _, ?_⟩
    intro a ha b hb he
    rw [he, List.mem_singleton.mp hb] at ha
    exact hnew ha

theorem subset (h : Laid deps members out) : out ⊆ members := by
  induction h with
  | nil => exact List.nil_subset _
  | snoc _ hmem _ _ ih => exact List.append_subset.mpr ⟨ih, by simpa using hmem⟩

/-- What a node of the list depends on stands in the list as well. -/
theorem closed (h : Laid deps members out) (hn : n ∈ out) {d : String} (hd : d ∈ deps n)
    (hmem : d ∈ members) : d ∈ out := by
  induction h with
  | nil => simp at hn
  | snoc _ _ _ hbehind ih =>
    rcases List.mem_append.mp hn with hold | hlast
    · exact List.mem_append_left _ (ih hold)
    · rw [List.mem_singleton.mp hlast] at hd
      exact List.mem_append_left _ (hbehind d hd hmem)

/-- **No node depends on itself.** -/
theorem not_dependsOn_self (h : Laid deps members out) (hn : n ∈ out) : n ∉ deps n := by
  induction h with
  | nil => simp at hn
  | snoc _ hmem hnew hbehind ih =>
    rcases List.mem_append.mp hn with hold | hlast
    · exact ih hold
    · rw [List.mem_singleton.mp hlast]
      exact fun hself => hnew (hbehind _ hself hmem)

/-- **No node depends on one behind it.** -/
theorem not_dependsOn_later (h : Laid deps members out) :
    out.Pairwise fun earlier later => later ∉ deps earlier := by
  induction h with
  | nil => exact List.Pairwise.nil
  | snoc hbefore hmem hnew _ ih =>
    refine List.pairwise_append.mpr ⟨ih, List.pairwise_singleton _ _, ?_⟩
    intro earlier hearlier later hlater hdep
    rw [List.mem_singleton.mp hlater] at hdep
    exact hnew (hbefore.closed hearlier hdep hmem)

end Laid

/-! ## Placing one node -/

/-- What placing keeps: the list stays laid, what is placed stays placed, and no node that waits on
the path is placed. -/
structure Grown (deps : String → List String) (members path out out' : List String) : Prop where
  laid : Laid deps members out'
  subset : out ⊆ out'
  waiting : ∀ p ∈ path, p ∈ out' → p ∈ out

theorem Grown.refl (h : Laid deps members out) : Grown deps members path out out :=
  ⟨h, List.Subset.refl _, fun _ _ hp => hp⟩

theorem Grown.trans {mid : List String} (h : Grown deps members path out mid)
    (h' : Grown deps members path mid out') : Grown deps members path out out' :=
  ⟨h'.laid, List.Subset.trans h.subset h'.subset,
    fun p hp hout => h.waiting p hp (h'.waiting p hp hout)⟩

/-- Placing nodes one after the other keeps what placing each of them keeps. -/
theorem Grown.of_foldlM {f : List String → String → Except String (List String)}
    (hf : ∀ out n out', Laid deps members out → f out n = .ok out' →
      Grown deps members path out out' ∧ (n ∈ members → n ∈ out')) :
    ∀ (ns out out' : List String), Laid deps members out → ns.foldlM f out = .ok out' →
      Grown deps members path out out' ∧ ∀ n ∈ ns, n ∈ members → n ∈ out'
  | [], out, out', hlaid, h => by
    cases h
    exact ⟨Grown.refl hlaid, by simp⟩
  | n :: ns, out, out', hlaid, h => by
    rw [List.foldlM_cons] at h
    cases hn : f out n with
    | error m => rw [hn] at h; cases h
    | ok mid =>
      rw [hn] at h
      obtain ⟨hfirst, hmem⟩ := hf out n mid hlaid hn
      obtain ⟨hrest, hall⟩ := of_foldlM hf ns mid out' hfirst.laid h
      refine ⟨hfirst.trans hrest, ?_⟩
      intro m hm hmember
      rcases List.mem_cons.mp hm with rfl | hlater
      · exact hrest.subset (hmem hmember)
      · exact hall m hlater hmember

/-- **Placing a node keeps the list laid and adds the node.** -/
theorem Laid.of_place (path out : List String) (n : String) :
    ∀ out', Laid deps members out → place deps members path out n = .ok out' →
      Grown deps members path out out' ∧ (n ∈ members → n ∈ out') := by
  induction path, out, n using place.induct members with
  | case1 path out n hskip =>
    intro out' hlaid h
    rw [place, dif_pos hskip] at h
    cases h
    exact ⟨Grown.refl hlaid, fun hmem => hskip.resolve_left fun hnot => hnot hmem⟩
  | case2 path out n hskip hpath =>
    intro out' _ h
    rw [place, dif_neg hskip, dif_pos hpath] at h
    cases h
  | case3 path out n hskip hpath ih =>
    -- what the node depends on is placed first, while the node itself waits on the path
    intro out' hlaid h
    rw [place, dif_neg hskip, dif_neg hpath] at h
    simp only [not_or, Decidable.not_not] at hskip
    obtain ⟨hmem, hnew⟩ := hskip
    cases hdeps : (deps n).foldlM (place deps members (n :: path)) out with
    | error m => rw [hdeps] at h; cases h
    | ok placed =>
      rw [hdeps] at h
      cases h
      obtain ⟨hgrown, hall⟩ := Grown.of_foldlM (fun out n out' => ih out n out') _ _ _ hlaid hdeps
      have hnot : n ∉ placed := fun hn => hnew (hgrown.waiting n (List.mem_cons_self ..) hn)
      refine ⟨⟨hgrown.laid.snoc hmem hnot hall, ?_, ?_⟩, fun _ => by simp⟩
      · intro m hm
        exact List.mem_append_left _ (hgrown.subset hm)
      · intro p hp hplaced
        rcases List.mem_append.mp hplaced with hbefore | hlast
        · exact hgrown.waiting p (List.mem_cons_of_mem _ hp) hbefore
        · exact absurd (List.mem_singleton.mp hlast ▸ hp) hpath

/-! ## Placing a whole list -/

/-- **The order is laid and holds exactly the nodes of the list.** -/
theorem order_laid {list : List String} (h : order deps list = .ok out) :
    Laid deps list out ∧ ∀ n, n ∈ out ↔ n ∈ list := by
  obtain ⟨hgrown, hall⟩ : Grown deps list [] [] out ∧ ∀ n ∈ list, n ∈ list → n ∈ out :=
    Grown.of_foldlM (fun out n out' => Laid.of_place [] out n out') list [] out .nil h
  exact ⟨hgrown.laid, fun n => ⟨fun hn => hgrown.laid.subset hn, fun hn => hall n hn hn⟩⟩

/-! ## Nodes that can be laid out -/

/-- **What a node depends on stands before it.** -/
theorem Laid.idxOf_lt (h : Laid deps members out) (hn : n ∈ out) {d : String} (hd : d ∈ deps n)
    (hmem : d ∈ members) : out.idxOf d < out.idxOf n := by
  induction h with
  | nil => cases hn
  | @snoc out last hbefore _ hnew hbehind ih =>
    by_cases hold : n ∈ out
    · rw [List.idxOf_append_of_mem hold, List.idxOf_append_of_mem (hbefore.closed hold hd hmem)]
      exact ih hold
    · have hlast : n = last := by simpa [hold] using hn
      subst hlast
      have hplaced := hbehind d hd hmem
      rw [List.idxOf_append_of_mem hplaced, List.idxOf_append_of_notMem hold]
      exact Nat.lt_add_right _ (List.idxOf_lt_length_of_mem hplaced)

theorem foldlM_isOk {f : List String → String → Except String (List String)} {ns : List String}
    (hf : ∀ n ∈ ns, ∀ out, ∃ out', f out n = .ok out') (out : List String) :
    ∃ out', ns.foldlM f out = .ok out' := by
  induction ns generalizing out with
  | nil => exact ⟨out, rfl⟩
  | cons n ns ih =>
    obtain ⟨mid, hmid⟩ := hf n (List.mem_cons_self ..) out
    obtain ⟨out', hout⟩ := ih (fun m hm => hf m (List.mem_cons_of_mem _ hm)) mid
    refine ⟨out', ?_⟩
    rw [List.foldlM_cons, hmid]
    exact hout

/-- **Where what a node depends on ranks below it, placing a node succeeds.** -/
theorem place_isOk {rank : String → Nat}
    (hrank : ∀ n ∈ members, ∀ d ∈ deps n, d ∈ members → rank d < rank n) (path out : List String)
    (n : String) : (n ∈ members → ∀ p ∈ path, rank n < rank p) →
      ∃ out', place deps members path out n = .ok out' := by
  induction path, out, n using place.induct members with
  | case1 path out n hskip =>
    intro _
    exact ⟨out, by rw [place, dif_pos hskip]⟩
  | case2 path out n hskip hpath =>
    -- the nodes of the path rank above the node, so it is none of them
    intro hbelow
    have hmem : n ∈ members := Decidable.not_not.mp fun h => hskip (Or.inl h)
    exact absurd (hbelow hmem n hpath) (Nat.lt_irrefl _)
  | case3 path out n hskip hpath ih =>
    intro hbelow
    have hmem : n ∈ members := Decidable.not_not.mp fun h => hskip (Or.inl h)
    have hdeps : ∀ d ∈ deps n, ∀ out, ∃ out', place deps members (n :: path) out d = .ok out' := by
      intro d hd out
      refine ih out d ?_
      intro hdmem p hp
      have hlt := hrank n hmem d hd hdmem
      rcases List.mem_cons.mp hp with rfl | hlater
      · exact hlt
      · exact Nat.lt_trans hlt (hbelow hmem p hlater)
    obtain ⟨placed, hplaced⟩ := foldlM_isOk hdeps out
    refine ⟨placed ++ [n], ?_⟩
    rw [place, dif_neg hskip, dif_neg hpath, hplaced]
    rfl

/-- **Where nodes have an order, they have one in whatever order they are given.** -/
theorem order_isOk_of_laid {list : List String} (h : order deps list = .ok out)
    {list' : List String} (hmem : ∀ n, n ∈ list' ↔ n ∈ list) :
    ∃ out', order deps list' = .ok out' := by
  obtain ⟨hlaid, hall⟩ := order_laid h
  have hrank : ∀ n ∈ list', ∀ d ∈ deps n, d ∈ list' → out.idxOf d < out.idxOf n := by
    intro n hn d hd hd'
    exact hlaid.idxOf_lt ((hall n).mpr ((hmem n).mp hn)) hd ((hmem d).mp hd')
  exact foldlM_isOk (fun n _ out => place_isOk hrank [] out n fun _ => nofun) []

end StockFlow.Graph
