import Mathlib.Logic.Relation
import StockFlow.Proofs.Answer
import StockFlow.Proofs.Model.Merging

/-!
# Models that start from others

* `ModelDecl.Lineage` — the chain of a model's ancestors
* `ModelDecl.chain_isOk` — the chain is found where parents are known and none starts from itself
* `ModelDecl.inherit_eq_ok_iff` — the statements of a chain are those of its models, merged
* `Definition.Inherits` — each name in its oldest place, with the statement nearest to the model
-/

namespace StockFlow

namespace ModelDecl

variable {models : List ModelDecl} {m p : ModelDecl} {chain chain' : List ModelDecl}
  {path : List String}

/-- The names that the body of a model introduces. -/
def ownNames (m : ModelDecl) : List String := m.body.stmts.map Stmt.name

/-- **A model starts from the statements of its parent.** -/
def StartsFrom (models : List ModelDecl) (m p : ModelDecl) : Prop :=
  p ∈ models ∧ ∃ span, m.parent = some (p.name, span)

/-- **The chain of a model's ancestors,** the farthest first, and last the model itself. -/
inductive Lineage (models : List ModelDecl) : ModelDecl → List ModelDecl → Prop
  | root {m : ModelDecl} : m.parent = none → Lineage models m [m]
  | child {m p : ModelDecl} {ancestors : List ModelDecl} :
    StartsFrom models m p → Lineage models p ancestors → Lineage models m (ancestors ++ [m])

/-! ## Lineages -/

section

variable (hnd : (models.map name).Nodup)
include hnd

/-- Where names are distinct, a model has one parent at most. -/
theorem StartsFrom.unique {p' : ModelDecl} (h : StartsFrom models m p)
    (h' : StartsFrom models m p') : p = p' := by
  obtain ⟨hmem, span, hparent⟩ := h
  obtain ⟨hmem', span', hparent'⟩ := h'
  rw [hparent] at hparent'
  exact List.inj_on_of_nodup_map hnd hmem hmem' (Prod.mk.inj (Option.some.inj hparent')).1

theorem Lineage.ancestors (h : Lineage models m chain) (hp : StartsFrom models m p) :
    ∃ ancestors, Lineage models p ancestors ∧ chain = ancestors ++ [m] := by
  cases h with
  | root hroot =>
    obtain ⟨_, span, hparent⟩ := hp
    rw [hroot] at hparent
    cases hparent
  | child hp' hanc =>
    rw [hp.unique hnd hp']
    exact ⟨_, hanc, rfl⟩

/-- **A model has one lineage at most.** -/
theorem Lineage.unique (h : Lineage models m chain) (h' : Lineage models m chain') :
    chain = chain' := by
  induction h generalizing chain' with
  | root hroot =>
    cases h' with
    | root => rfl
    | child hp =>
      obtain ⟨_, span, hparent⟩ := hp
      rw [hroot] at hparent
      cases hparent
  | child hp _ ih =>
    obtain ⟨ancestors, hanc, rfl⟩ := h'.ancestors hnd hp
    rw [ih hanc]

/-- The lineage of an ancestor is shorter. -/
theorem Lineage.length_lt (h : Lineage models m chain)
    (hreach : Relation.TransGen (StartsFrom models) m p) :
    ∃ ancestors, Lineage models p ancestors ∧ ancestors.length < chain.length := by
  induction hreach with
  | single hp =>
    obtain ⟨ancestors, hanc, rfl⟩ := h.ancestors hnd hp
    exact ⟨ancestors, hanc, by rw [List.length_append, List.length_singleton]; omega⟩
  | tail _ hp ih =>
    obtain ⟨chain', hchain', hlt⟩ := ih
    obtain ⟨ancestors, hanc, rfl⟩ := hchain'.ancestors hnd hp
    refine ⟨ancestors, hanc, ?_⟩
    rw [List.length_append, List.length_singleton] at hlt
    omega

/-- **A model that has a lineage does not start from itself.** -/
theorem Lineage.not_circular (h : Lineage models m chain) :
    ¬Relation.TransGen (StartsFrom models) m m := by
  intro hcircle
  obtain ⟨chain', h', hlt⟩ := h.length_lt hnd hcircle
  rw [h.unique hnd h'] at hlt
  exact Nat.lt_irrefl _ hlt

end

theorem Lineage.self_mem (h : Lineage models m chain) : m ∈ chain := by
  cases h with
  | root => exact List.mem_singleton_self m
  | child => exact List.mem_append_right _ (List.mem_singleton_self m)

theorem Lineage.subset (h : Lineage models m chain) (hm : m ∈ models) : chain ⊆ models := by
  induction h with
  | root => exact List.cons_subset.mpr ⟨hm, List.nil_subset _⟩
  | child hp _ ih =>
    exact List.append_subset.mpr ⟨ih hp.1, List.cons_subset.mpr ⟨hm, List.nil_subset _⟩⟩

/-! ## Finding the lineage -/

theorem startsFrom_of_find? {n : String} {span : Span} (hparent : m.parent = some (n, span))
    (hfind : (models.find? fun d => d.name = n) = some p) : StartsFrom models m p := by
  have hname : p.name = n := by simpa using List.find?_some hfind
  exact ⟨List.mem_of_find?_eq_some hfind, span, hname ▸ hparent⟩

theorem chain_of_root (hm : m ∈ models) (hpath : m.name ∉ path) (hroot : m.parent = none) :
    m.chain models path hm = .ok [m] := by
  rw [ModelDecl.chain, dif_neg hpath]
  split
  · rfl
  · next hparent =>
    rw [hroot] at hparent
    cases hparent

theorem chain_of_child {n : String} {span : Span} (hm : m ∈ models) (hpath : m.name ∉ path)
    (hparent : m.parent = some (n, span)) (hfind : (models.find? fun d => d.name = n) = some p) :
    m.chain models path hm =
      (do
        let ancestors ← p.chain models (m.name :: path) (List.mem_of_find?_eq_some hfind)
        return ancestors ++ [m]) := by
  rw [ModelDecl.chain, dif_neg hpath]
  split
  · next hroot =>
    rw [hroot] at hparent
    cases hparent
  · next hparent' =>
    rw [hparent] at hparent'
    cases hparent'
    split
    · next hnone =>
      rw [hnone] at hfind
      cases hfind
    · next hsome =>
      rw [hsome] at hfind
      cases hfind
      rfl

theorem chain_of_unknown {n : String} {span : Span} (hm : m ∈ models) (hpath : m.name ∉ path)
    (hparent : m.parent = some (n, span)) (hfind : (models.find? fun d => d.name = n) = none) :
    m.chain models path hm = .error (.unknownParent m.name n) := by
  rw [ModelDecl.chain, dif_neg hpath]
  split
  · next hroot =>
    rw [hroot] at hparent
    cases hparent
  · next hparent' =>
    rw [hparent] at hparent'
    cases hparent'
    split
    · rfl
    · next hsome =>
      rw [hsome] at hfind
      cases hfind

/-- **What is found is the lineage.** -/
theorem lineage_of_chain (path : List String) (m : ModelDecl) (hm : m ∈ models) :
    ∀ chain, m.chain models path hm = .ok chain → Lineage models m chain := by
  induction path, m, hm using ModelDecl.chain.induct with
  | case1 path m hm hpath =>
    intro chain h
    rw [ModelDecl.chain, dif_pos hpath] at h
    cases h
  | case2 path m hm hpath hroot =>
    intro chain h
    rw [chain_of_root hm hpath hroot] at h
    cases h
    exact .root hroot
  | case3 path m hm hpath n span hparent hfind =>
    intro chain h
    rw [chain_of_unknown hm hpath hparent hfind] at h
    cases h
  | case4 path m hm hpath n span hparent p hfind ih =>
    intro chain h
    rw [chain_of_child hm hpath hparent hfind] at h
    obtain ⟨ancestors, hanc, h⟩ := bind_eq_ok.mp h
    cases h
    exact .child (startsFrom_of_find? hparent hfind) (ih ancestors hanc)

/-- **The lineage is found where every parent is known and no model starts from itself.** The models
on the path start from the one that is looked at, so that it is none of them. -/
theorem chain_isOk (hnd : (models.map name).Nodup)
    (hknown : ∀ m ∈ models, ∀ n span, m.parent = some (n, span) → ∃ p ∈ models, p.name = n)
    (hacyclic : ∀ m ∈ models, ¬Relation.TransGen (StartsFrom models) m m) (path : List String)
    (m : ModelDecl) (hm : m ∈ models) :
    (∀ n ∈ path, ∃ d ∈ models, d.name = n ∧ Relation.TransGen (StartsFrom models) d m) →
      ∃ chain, m.chain models path hm = .ok chain := by
  induction path, m, hm using ModelDecl.chain.induct with
  | case1 path m hm hpath =>
    intro hreach
    obtain ⟨d, hd, hname, hcircle⟩ := hreach m.name hpath
    rw [List.inj_on_of_nodup_map hnd hd hm hname] at hcircle
    exact absurd hcircle (hacyclic m hm)
  | case2 path m hm hpath hroot =>
    intro _
    exact ⟨[m], chain_of_root hm hpath hroot⟩
  | case3 path m hm hpath n span hparent hfind =>
    intro _
    obtain ⟨p, hp, hname⟩ := hknown m hm n span hparent
    exact absurd (decide_eq_true hname) (List.find?_eq_none.mp hfind p hp)
  | case4 path m hm hpath n span hparent p hfind ih =>
    intro hreach
    have hp := startsFrom_of_find? hparent hfind
    obtain ⟨ancestors, hanc⟩ := ih fun n hn => by
      rcases List.mem_cons.mp hn with rfl | hn
      · exact ⟨m, hm, rfl, .single hp⟩
      · obtain ⟨d, hd, hname, hdm⟩ := hreach n hn
        exact ⟨d, hd, hname, hdm.tail hp⟩
    refine ⟨ancestors ++ [m], ?_⟩
    rw [chain_of_child hm hpath hparent hfind, hanc]
    rfl

/-! ## Inherited statements -/

/-- The statements of the models of a chain, each on top of those before it. -/
def merged (chain : List ModelDecl) : List Stmt :=
  chain.foldl (fun inherited m => Stmt.merge inherited m.body.stmts) []

theorem merged_concat (chain : List ModelDecl) (m : ModelDecl) :
    merged (chain ++ [m]) = Stmt.merge (merged chain) m.body.stmts := List.foldl_concat ..

/-- **The statements of a chain are those of its models, merged,** if no body introduces a name
twice. -/
theorem inherit_eq_ok_iff {stmts : List Stmt} :
    inherit chain = .ok stmts ↔ (∀ m ∈ chain, m.ownNames.Nodup) ∧ stmts = merged chain := by
  unfold inherit merged
  generalize ([] : List Stmt) = inherited
  induction chain generalizing inherited with
  | nil => exact ⟨fun h => ⟨nofun, (Except.ok.inj h).symm⟩, fun h => congrArg _ h.2.symm⟩
  | cons m rest ih =>
    rw [List.foldlM_cons, bind_eq_ok, List.forall_mem_cons, List.foldl_cons]
    have hown : firstRepeated? [] (m.body.stmts.map Stmt.name) = none ↔ m.ownNames.Nodup := by
      rw [firstRepeated?_eq_none_iff]
      exact and_iff_left fun n _ => List.not_mem_nil
    constructor
    · rintro ⟨mid, hmid, h⟩
      cases hrep : firstRepeated? [] (m.body.stmts.map Stmt.name) with
      | some n =>
        rw [hrep] at hmid
        cases hmid
      | none =>
        rw [hrep] at hmid
        cases hmid
        obtain ⟨hrest, hstmts⟩ := (ih _).mp h
        exact ⟨⟨hown.mp hrep, hrest⟩, hstmts⟩
    · rintro ⟨⟨hm, hrest⟩, hstmts⟩
      refine ⟨Stmt.merge inherited m.body.stmts, ?_, (ih _).mpr ⟨hrest, hstmts⟩⟩
      rw [hown.mpr hm]

theorem map_name_merged (chain : List ModelDecl) :
    (merged chain).map Stmt.name = (chain.flatMap ownNames).eraseDups := by
  induction chain using List.reverseRecOn with
  | nil => rfl
  | append_singleton chain m ih =>
    rw [merged_concat, List.flatMap_append, List.flatMap_singleton]
    exact Stmt.map_name_merge ih _

/-- **A statement of a chain is that of the last model that introduces its name.** -/
theorem mem_merged {s : Stmt} (hown : ∀ m ∈ chain, m.ownNames.Nodup) (hs : s ∈ merged chain) :
    ∃ before m after, chain = before ++ m :: after ∧ s ∈ m.body.stmts ∧
      ∀ d ∈ after, s.name ∉ d.ownNames := by
  induction chain using List.reverseRecOn with
  | nil => cases hs
  | append_singleton chain m ih =>
    obtain ⟨hchain, hm⟩ := List.forall_mem_append.mp hown
    have hnd : ((merged chain).map Stmt.name).Nodup := by
      rw [map_name_merged]
      exact nodup_eraseDups _
    rw [merged_concat, Stmt.mem_merge hnd (hm m (List.mem_singleton_self m))] at hs
    rcases hs with hs | ⟨hs, hnot⟩
    · exact ⟨chain, m, [], rfl, hs, nofun⟩
    · obtain ⟨before, d, after, rfl, hd, hafter⟩ := ih hchain hs
      refine ⟨before, d, after ++ [m], by rw [List.append_assoc, List.cons_append], hd, ?_⟩
      intro d' hd'
      rcases List.mem_append.mp hd' with hd' | hd'
      · exact hafter d' hd'
      · obtain rfl := List.mem_singleton.mp hd'
        exact hnot

end ModelDecl

/-- **A definition has each name of a chain once, in the place where it first occurs,** and with the
statement of the last model that introduces it. -/
structure Definition.Inherits (d : Definition) (chain : List ModelDecl) : Prop where
  distinct : (d.stmts.map Stmt.name).Nodup
  names : d.stmts.map Stmt.name = (chain.flatMap ModelDecl.ownNames).eraseDups
  nearest : ∀ s ∈ d.stmts, ∃ before m after, chain = before ++ m :: after ∧ s ∈ m.body.stmts ∧
    ∀ m' ∈ after, s.name ∉ m'.ownNames

theorem Definition.inherits_of_merged {d : Definition} {chain : List ModelDecl}
    (hown : ∀ m ∈ chain, m.ownNames.Nodup) (hd : d.stmts = ModelDecl.merged chain) :
    d.Inherits chain where
  distinct := by
    rw [hd, ModelDecl.map_name_merged]
    exact nodup_eraseDups _
  names := by rw [hd, ModelDecl.map_name_merged]
  nearest := fun s hs => ModelDecl.mem_merged hown (hd ▸ hs)

end StockFlow
