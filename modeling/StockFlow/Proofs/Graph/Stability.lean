import StockFlow.Proofs.Graph.Circle

/-!
# Which of two nodes comes first

Two nodes of which neither relies on the other may be put in order either way. Which way is found
depends on where each of them is met first: a node that stands early in the list takes along what it
relies on.

* `Graph.Sooner` — one node is met before another
* `Graph.Placed` — what placing nodes gives: those that they lead to, as they are met
* `Graph.idxOf_lt_iff_sooner` — of two nodes that do not rely on one another the one that is met
  sooner comes first
* `Graph.sooner_of_not_leads` — a node is met sooner if nothing before it leads to the other
-/

namespace StockFlow.Graph

variable {deps : String → List String} {members list ns path out out' mid : List String}
  {n x y : String}

/-! ## Which node is met first -/

/-- A node leads to another: it is that node, or it relies on it. -/
abbrev Leads (deps : String → List String) (members : List String) : String → String → Prop :=
  Relation.ReflTransGen (Needs deps members)

/-- **One node is met before another** where nodes are placed one after the other, each with what it
leads to. The first node that leads to either of them decides: it leads to one only, or to both, and
then the same is asked of the nodes that it depends on. -/
inductive Sooner (deps : String → List String) (members : List String) (x y : String) :
    List String → Prop
  | here {n : String} {ns : List String} (hx : Leads deps members n x)
      (hy : ¬Leads deps members n y) : Sooner deps members x y (n :: ns)
  | within {n : String} {ns : List String} (hx : Leads deps members n x)
      (hy : Leads deps members n y) (below : Sooner deps members x y (deps n)) :
      Sooner deps members x y (n :: ns)
  | later {n : String} {ns : List String} (hx : ¬Leads deps members n x)
      (hy : ¬Leads deps members n y) (rest : Sooner deps members x y ns) :
      Sooner deps members x y (n :: ns)

/-- Two members of which neither relies on the other. -/
structure Apart (deps : String → List String) (members : List String) (x y : String) : Prop where
  left : x ∈ members
  right : y ∈ members
  ne : x ≠ y
  not_relies : ¬Relies deps members x y
  not_relied : ¬Relies deps members y x

theorem Apart.symm (h : Apart deps members x y) : Apart deps members y x :=
  ⟨h.right, h.left, h.ne.symm, h.not_relied, h.not_relies⟩

theorem Apart.not_leads (h : Apart deps members x y) : ¬Leads deps members x y := by
  intro hleads
  rcases Relation.reflTransGen_iff_eq_or_transGen.mp hleads with heq | hrelies
  · exact h.ne heq.symm
  · exact h.not_relies hrelies

/-- A node that leads to both of two nodes apart is neither of them. -/
theorem Apart.ne_of_leads (h : Apart deps members x y) (hy : Leads deps members n y) : n ≠ x := by
  rintro rfl
  exact h.not_leads hy

/-- What is not a member leads to no other member. -/
theorem not_leads_of_not_mem (hn : n ∉ members) (hx : x ∈ members) : ¬Leads deps members n x := by
  intro h
  rcases Relation.ReflTransGen.cases_head h with rfl | ⟨d, hneeds, _⟩
  · exact hn hx
  · exact hn hneeds.1

/-- A node leads to what the nodes that it depends on lead to, apart from itself. -/
theorem leads_iff_of_ne (hne : n ≠ x) (hn : n ∈ members) (hx : x ∈ members) :
    Leads deps members n x ↔ ∃ d ∈ deps n, Leads deps members d x := by
  constructor
  · intro h
    rcases Relation.ReflTransGen.cases_head h with heq | ⟨d, hneeds, hd⟩
    · exact absurd heq hne
    · exact ⟨d, hneeds.2.2, hd⟩
  · rintro ⟨d, hd, hleads⟩
    by_cases hmem : d ∈ members
    · exact .head ⟨hn, hmem, hd⟩ hleads
    · exact absurd hleads (not_leads_of_not_mem hmem hx)

/-! ## What placing gives -/

/-- What a laid list holds is closed under leading to members. -/
theorem Laid.mem_of_leads (h : Laid deps members out) (hn : n ∈ out) (hx : Leads deps members n x) :
    x ∈ out := by
  induction hx with
  | refl => exact hn
  | tail _ hneeds ih => exact h.closed ih hneeds.2.2 hneeds.2.1

/-- **What placing some nodes gives:** behind what was placed before stand the members that they
lead to. Of two of these that are apart, the one that is met sooner comes first. -/
structure Placed (deps : String → List String) (members ns out out' : List String) : Prop where
  laid : Laid deps members out'
  kept : out <+: out'
  mem_iff : ∀ x ∈ members, (x ∈ out' ↔ x ∈ out ∨ ∃ n ∈ ns, Leads deps members n x)
  first : ∀ x y, Apart deps members x y → x ∉ out → y ∉ out → x ∈ out' → y ∈ out' →
    (out'.idxOf x < out'.idxOf y ↔ Sooner deps members x y ns)

theorem sooner_cons_iff : Sooner deps members x y (n :: ns) ↔
    Leads deps members n x ∧ (Leads deps members n y → Sooner deps members x y (deps n)) ∨
      ¬Leads deps members n x ∧ ¬Leads deps members n y ∧ Sooner deps members x y ns := by
  constructor
  · rintro (⟨hx, hy⟩ | ⟨hx, hy, hbelow⟩ | ⟨hx, hy, hrest⟩)
    · exact Or.inl ⟨hx, fun h => absurd h hy⟩
    · exact Or.inl ⟨hx, fun _ => hbelow⟩
    · exact Or.inr ⟨hx, hy, hrest⟩
  · rintro (⟨hx, hbelow⟩ | ⟨hx, hy, hrest⟩)
    · by_cases hy : Leads deps members n y
      · exact .within hx hy (hbelow hy)
      · exact .here hx hy
    · exact .later hx hy hrest

/-- Where both are led to, it counts how they are met below. -/
theorem sooner_cons_of_leads (hx : Leads deps members n x) (hy : Leads deps members n y) :
    Sooner deps members x y (n :: ns) ↔ Sooner deps members x y (deps n) := by
  rw [sooner_cons_iff]
  simp only [hx, hy, true_and, forall_const, not_true_eq_false, false_and, or_false]

/-- What stands in the first part of a list stands there at the same place. -/
theorem idxOf_of_kept (h : mid <+: out) (hx : x ∈ mid) : out.idxOf x = mid.idxOf x := by
  obtain ⟨rest, rfl⟩ := h
  exact List.idxOf_append_of_mem hx

/-- What stands in the first part of a list stands before what does not. -/
theorem idxOf_lt_of_kept (h : mid <+: out) (hx : x ∈ mid) (hy : y ∉ mid) :
    out.idxOf x < out.idxOf y := by
  obtain ⟨rest, rfl⟩ := h
  rw [List.idxOf_append_of_mem hx, List.idxOf_append_of_notMem hy]
  exact Nat.lt_add_right _ (List.idxOf_lt_length_of_mem hx)

namespace Placed

theorem nil (h : Laid deps members out) : Placed deps members [] out out where
  laid := h
  kept := List.prefix_rfl
  mem_iff := by simp
  first := fun _ _ _ hx _ hx' => absurd hx' hx

/-- **Nodes are placed one after the other.** -/
theorem cons (h : Placed deps members [n] out mid) (h' : Placed deps members ns mid out') :
    Placed deps members (n :: ns) out out' where
  laid := h'.laid
  kept := h.kept.trans h'.kept
  mem_iff := by
    intro x hx
    rw [h'.mem_iff x hx, h.mem_iff x hx]
    simp only [List.mem_cons, exists_eq_or_imp, List.not_mem_nil, or_false, exists_eq_left,
      or_assoc]
  first := by
    intro x y hapart hx hy hx' hy'
    have hmid : ∀ z ∈ members, z ∉ out → (z ∈ mid ↔ Leads deps members n z) := by
      intro z hz hnew
      rw [h.mem_iff z hz]
      simp [hnew]
    have hmidx := hmid x hapart.left hx
    have hmidy := hmid y hapart.right hy
    by_cases hleadx : Leads deps members n x
    · by_cases hleady : Leads deps members n y
      · rw [idxOf_of_kept h'.kept (hmidx.mpr hleadx), idxOf_of_kept h'.kept (hmidy.mpr hleady),
          h.first x y hapart hx hy (hmidx.mpr hleadx) (hmidy.mpr hleady),
          sooner_cons_of_leads hleadx hleady, sooner_cons_of_leads hleadx hleady]
      · exact iff_of_true
          (idxOf_lt_of_kept h'.kept (hmidx.mpr hleadx) (mt hmidy.mp hleady))
          (.here hleadx hleady)
    · by_cases hleady : Leads deps members n y
      · have hlt := idxOf_lt_of_kept h'.kept (hmidy.mpr hleady) (mt hmidx.mp hleadx)
        refine iff_of_false (Nat.lt_asymm hlt) ?_
        rw [sooner_cons_iff]
        simp only [hleadx, hleady, false_and, not_true_eq_false, and_false, or_self,
          not_false_eq_true]
      · rw [h'.first x y hapart (mt hmidx.mp hleadx) (mt hmidy.mp hleady) hx' hy', sooner_cons_iff]
        simp only [hleadx, hleady, false_and, not_false_eq_true, true_and, false_or]

theorem of_foldlM {f : List String → String → Except String (List String)}
    (hf : ∀ out n out', Laid deps members out → f out n = .ok out' →
      Placed deps members [n] out out') :
    ∀ (ns out out' : List String), Laid deps members out → ns.foldlM f out = .ok out' →
      Placed deps members ns out out'
  | [], out, out', hlaid, h => by
    cases h
    exact .nil hlaid
  | n :: ns, out, out', hlaid, h => by
    rw [List.foldlM_cons] at h
    cases hn : f out n with
    | error m => rw [hn] at h; cases h
    | ok mid =>
      rw [hn] at h
      have hfirst := hf out n mid hlaid hn
      exact hfirst.cons (of_foldlM hf ns mid out' hfirst.laid h)

/-- A node that is left out, or that is placed already, changes nothing. -/
theorem of_skip (h : Laid deps members out) (hskip : n ∉ members ∨ n ∈ out) :
    Placed deps members [n] out out where
  laid := h
  kept := List.prefix_rfl
  mem_iff := by
    intro x hx
    simp only [List.mem_singleton, exists_eq_left, iff_self_or]
    intro hleads
    rcases hskip with hnot | hout
    · exact absurd hleads (not_leads_of_not_mem hnot hx)
    · exact h.mem_of_leads hout hleads
  first := fun _ _ _ hx _ hx' => absurd hx' hx

/-- A node stands behind what it depends on. -/
theorem of_deps (h : Placed deps members (deps n) out mid) (hlaid : Laid deps members (mid ++ [n]))
    (hn : n ∈ members) : Placed deps members [n] out (mid ++ [n]) where
  laid := hlaid
  kept := h.kept.trans (List.prefix_append ..)
  mem_iff := by
    intro x hx
    simp only [List.mem_append, List.mem_singleton, exists_eq_left, h.mem_iff x hx, or_assoc]
    by_cases hne : n = x
    · subst hne
      simp only [or_true, Relation.ReflTransGen.refl]
    · rw [leads_iff_of_ne hne hn hx]
      simp only [Ne.symm hne, or_false]
  first := by
    intro x y hapart hx hy hx' hy'
    have hplaced : ∀ z, n ≠ z → z ∈ mid ++ [n] → z ∈ mid := by
      intro z hne hz
      exact (List.mem_append.mp hz).resolve_right fun hlast =>
        hne (List.mem_singleton.mp hlast).symm
    have hleads : ∀ z ∈ members, z ∉ out → z ∈ mid ++ [n] → Leads deps members n z := by
      intro z hz hnew hz'
      by_cases hne : n = z
      · exact hne ▸ .refl
      · rw [leads_iff_of_ne hne hn hz]
        exact ((h.mem_iff z hz).mp (hplaced z hne hz')).resolve_left hnew
    have hleadx := hleads x hapart.left hx hx'
    have hleady := hleads y hapart.right hy hy'
    -- neither is the node itself, so both were placed with what it depends on
    have hmidx := hplaced x (hapart.ne_of_leads hleady) hx'
    have hmidy := hplaced y (hapart.symm.ne_of_leads hleadx) hy'
    rw [List.idxOf_append_of_mem hmidx, List.idxOf_append_of_mem hmidy,
      h.first x y hapart hx hy hmidx hmidy, sooner_cons_of_leads hleadx hleady]

/-- **Placing a node places the members that it leads to,** as they are met. -/
theorem of_place (path out : List String) (n : String) :
    ∀ out', Laid deps members out → place deps members path out n = .ok out' →
      Placed deps members [n] out out' := by
  induction path, out, n using place.induct members with
  | case1 path out n hskip =>
    intro out' hlaid h
    rw [place, dif_pos hskip] at h
    cases h
    exact of_skip hlaid hskip
  | case2 path out n hskip hpath =>
    intro out' _ h
    rw [place, dif_neg hskip, dif_pos hpath] at h
    cases h
  | case3 path out n hskip hpath ih =>
    intro out' hlaid h
    have hgrown := (Laid.of_place path out n out' hlaid h).1
    rw [place, dif_neg hskip, dif_neg hpath] at h
    cases hdeps : (deps n).foldlM (place deps members (n :: path)) out with
    | error m => rw [hdeps] at h; cases h
    | ok placed =>
      rw [hdeps] at h
      cases h
      have hmem : n ∈ members := Decidable.not_not.mp fun hnot => hskip (Or.inl hnot)
      exact (of_foldlM (fun out d out' => ih out d out') _ _ _ hlaid hdeps).of_deps hgrown.laid hmem

end Placed

/-- **Of two nodes of which neither relies on the other, the one that is met sooner comes
first.** -/
theorem idxOf_lt_iff_sooner (h : order deps list = .ok out) (hapart : Apart deps list x y) :
    out.idxOf x < out.idxOf y ↔ Sooner deps list x y list := by
  have hplaced : Placed deps list list [] out :=
    .of_foldlM (fun out n out' => .of_place [] out n out') list [] out .nil h
  obtain ⟨_, hall⟩ := order_laid h
  exact hplaced.first x y hapart (List.not_mem_nil) (List.not_mem_nil) ((hall x).mpr hapart.left)
    ((hall y).mpr hapart.right)

/-- A node is met before another if nothing that stands before it leads to the other. -/
theorem sooner_of_not_leads (hapart : Apart deps members x y) (hx : x ∈ ns)
    (hbefore : ∀ z ∈ ns, ns.idxOf z < ns.idxOf x → ¬Leads deps members z y) :
    Sooner deps members x y ns := by
  induction ns with
  | nil => cases hx
  | cons n ns ih =>
    by_cases hne : n = x
    · subst hne
      exact .here .refl hapart.not_leads
    · have hfirst : ¬Leads deps members n y :=
        hbefore n (List.mem_cons_self ..) (by simp [List.idxOf_cons_ne ns hne])
      by_cases hleads : Leads deps members n x
      · exact .here hleads hfirst
      · refine .later hleads hfirst (ih ((List.mem_cons.mp hx).resolve_left (Ne.symm hne)) ?_)
        intro z hz hlt
        by_cases hzn : n = z
        · exact hzn ▸ hfirst
        · refine hbefore z (List.mem_cons_of_mem _ hz) ?_
          rw [List.idxOf_cons_ne ns hne, List.idxOf_cons_ne ns hzn]
          exact Nat.succ_lt_succ hlt

end StockFlow.Graph
