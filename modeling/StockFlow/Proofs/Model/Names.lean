import StockFlow.Model.Analysis
import StockFlow.Proofs.Answer
import StockFlow.Proofs.Model.References

/-!
# Names and kinds of an accepted model

* `Definition.NamesInOrder` — distinct names, none of them implicit, and no other is referred to
* `Definition.namesInOrder_of_scope` — the names of a model that is accepted are in order
* `Definition.scope_of_namesInOrder` — a model whose names are in order has a scope
* `Definition.kinds_of?` — every variable of a model that is accepted has its kind
* `Definition.analyze_eq_ok` — what is known of a model that is accepted
-/

namespace StockFlow

/-- The names of the variables of a model. -/
def Definition.varNames (d : Definition) : List String := d.varStmts.map Stmt.name

theorem Definition.name_mem_varNames {d : Definition} {s : Stmt} (hs : s ∈ d.varStmts) :
    s.name ∈ d.varNames := List.mem_map_of_mem hs

/-- Names are distinct, none of them is implicit, and only known ones are referred to. -/
structure Definition.NamesInOrder (d : Definition) : Prop where
  distinct : d.varNames.Nodup
  explicit : ∀ s ∈ d.varStmts, s.name ∉ implicitNames
  known : ∀ s ∈ d.varStmts, ∀ r ∈ s.references, r.1 ∈ d.varNames ∨ r.1 ∈ implicitNames

/-- Kinds are looked up from the last to the first, which makes no difference to distinct names. -/
theorem Kinds.of?_eq_some_iff {ks : Kinds} (hnd : (ks.map Prod.fst).Nodup) {n : String}
    {k : VarKind} : ks.of? n = some k ↔ (n, k) ∈ ks := by
  have hrev : (ks.reverse.map Prod.fst).Nodup := by
    rwa [List.map_reverse, List.nodup_reverse]
  exact (lookup_eq_some_iff hrev).trans List.mem_reverse

namespace Definition

variable {d : Definition}

/-- What declaring some statements behind others gives. -/
theorem declare_eq_ok {model : String} {stmts : List Stmt} {declared vars : List VarDecl}
    (h : declare model declared stmts = .ok vars) :
    vars = declared ++ stmts.map Stmt.decl ∧ (stmts.map Stmt.name).Nodup ∧
      ∀ s ∈ stmts, s.name ∉ implicitNames ∧ s.name ∉ declared.map VarDecl.name := by
  induction stmts generalizing declared with
  | nil =>
    cases h
    exact ⟨(List.append_nil _).symm, List.nodup_nil, nofun⟩
  | cons s rest ih =>
    rw [declare] at h
    by_cases himplicit : s.name ∈ implicitNames
    · rw [if_pos himplicit] at h
      cases h
    · rw [if_neg himplicit] at h
      cases hfind : declared.find? fun d => d.name = s.name with
      | some first => rw [hfind] at h; cases h
      | none =>
        rw [hfind] at h
        obtain ⟨hvars, hnd, hall⟩ := ih h
        have hnew : s.name ∉ declared.map VarDecl.name := by
          intro hmem
          obtain ⟨v, hv, he⟩ := List.mem_map.mp hmem
          simpa [he] using List.find?_eq_none.mp hfind v hv
        refine ⟨by rw [hvars, List.append_assoc]; rfl, List.nodup_cons.mpr ⟨?_, hnd⟩, ?_⟩
        · intro hmem
          obtain ⟨t, ht, he⟩ := List.mem_map.mp hmem
          refine (hall t ht).2 ?_
          rw [he, List.map_append]
          exact List.mem_append_right _ (List.mem_singleton.mpr rfl)
        · intro t ht
          rcases List.mem_cons.mp ht with rfl | hlater
          · exact ⟨himplicit, hnew⟩
          · obtain ⟨hexplicit, hnot⟩ := hall t hlater
            rw [List.map_append] at hnot
            exact ⟨hexplicit, fun hmem => hnot (List.mem_append_left _ hmem)⟩

/-- A declaration is found under the names of the variables. -/
theorem isSome_find?_decl_iff {n : String} :
    ((d.varStmts.map Stmt.decl).find? fun v => v.name = n).isSome = true ↔ n ∈ d.varNames := by
  rw [List.find?_isSome]
  constructor
  · rintro ⟨v, hv, hn⟩
    obtain ⟨s, hs, rfl⟩ := List.mem_map.mp hv
    exact List.mem_map.mpr ⟨s, hs, of_decide_eq_true hn⟩
  · intro hn
    obtain ⟨s, hs, rfl⟩ := List.mem_map.mp hn
    exact ⟨s.decl, List.mem_map_of_mem hs, decide_eq_true rfl⟩

/-- The variables of a model and the implicit names are known in it. -/
theorem knows_iff {isAbstract : Bool} {n : String} :
    Scope.knows ⟨[] ++ d.varStmts.map Stmt.decl, isAbstract⟩ n = true ↔
      n ∈ d.varNames ∨ n ∈ implicitNames := by
  rw [Scope.knows, Scope.find?, List.nil_append, Bool.or_eq_true, decide_eq_true_eq]
  exact or_congr_left isSome_find?_decl_iff

/-- **The names of a model that is accepted are in order.** -/
theorem namesInOrder_of_scope {sc : Scope} (h : d.scope = .ok sc) :
    d.NamesInOrder ∧ sc.isAbstract = d.varStmts.any fun s => s.value.isNone := by
  rw [scope_eq] at h
  obtain ⟨vars, hvars, h⟩ := bind_eq_ok.mp h
  obtain ⟨⟨⟩, hforM, h⟩ := bind_eq_ok.mp h
  obtain ⟨rfl, hnd, hall⟩ := declare_eq_ok hvars
  have hsc := Except.ok.inj h
  refine ⟨⟨hnd, fun s hs => (hall s hs).1, ?_⟩, by rw [← hsc]⟩
  exact fun s hs r hr => knows_iff.mp (Scope.check_eq_ok.mp (forM_eq_ok.mp hforM s hs) r hr)

/-- Statements of distinct new names that are not implicit can be declared. -/
theorem declare_isOk (model : String) {stmts : List Stmt} (declared : List VarDecl)
    (hnd : (stmts.map Stmt.name).Nodup)
    (hnew : ∀ s ∈ stmts, s.name ∉ implicitNames ∧ s.name ∉ declared.map VarDecl.name) :
    ∃ vars, declare model declared stmts = .ok vars := by
  induction stmts generalizing declared with
  | nil => exact ⟨declared, rfl⟩
  | cons s rest ih =>
    obtain ⟨hfirst, hnd'⟩ := List.nodup_cons.mp hnd
    obtain ⟨hexplicit, hnot⟩ := hnew s (List.mem_cons_self ..)
    have hfind : (declared.find? fun d => d.name = s.name) = none := by
      refine List.find?_eq_none.mpr fun v hv => ?_
      simp only [decide_eq_true_eq]
      exact fun he => hnot (he ▸ List.mem_map_of_mem hv)
    rw [declare, if_neg hexplicit, hfind]
    refine ih _ hnd' fun t ht => ?_
    obtain ⟨htexplicit, htnot⟩ := hnew t (List.mem_cons_of_mem _ ht)
    refine ⟨htexplicit, ?_⟩
    rw [List.map_append, List.mem_append, not_or]
    refine ⟨htnot, fun hmem => hfirst ?_⟩
    have he : t.name = s.name := List.mem_singleton.mp hmem
    exact he ▸ List.mem_map_of_mem ht

/-- **A model whose names are in order has a scope.** -/
theorem scope_of_namesInOrder (h : d.NamesInOrder) : ∃ sc, d.scope = .ok sc := by
  obtain ⟨vars, hvars⟩ := declare_isOk d.name [] h.distinct
    fun s hs => ⟨h.explicit s hs, nofun⟩
  obtain ⟨rfl, -, -⟩ := declare_eq_ok hvars
  rw [scope_eq]
  refine ⟨_, bind_eq_ok.mpr ⟨_, hvars, bind_eq_ok.mpr ⟨(), forM_eq_ok.mpr ?_, rfl⟩⟩⟩
  exact fun s hs => Scope.check_eq_ok.mpr fun r hr => knows_iff.mpr (h.known s hs r hr)

/-! ## Kinds -/

/-- What the kinds of a model that is accepted are. -/
theorem kinds_eq_ok {ks : Kinds} (h : d.kinds = .ok ks) :
    List.Forall₂ (fun s k => k.1 = s.name ∧ s.kind = .ok k.2) d.varStmts ks := by
  refine (mapM_eq_ok.mp h).imp ?_
  intro s k hk
  cases hkind : s.kind with
  | error e => rw [hkind] at hk; cases hk
  | ok kind =>
    rw [hkind] at hk
    cases hk
    exact ⟨rfl, rfl⟩

theorem kinds_nodup {ks : Kinds} (h : d.kinds = .ok ks) (hn : d.NamesInOrder) :
    (ks.map Prod.fst).Nodup := by
  rw [map_eq_of_forall₂ ((kinds_eq_ok h).imp fun _ _ hk => hk.1)]
  exact hn.distinct

/-- **Every variable of a model that is accepted has its kind.** -/
theorem kinds_of? {ks : Kinds} (h : d.kinds = .ok ks) (hn : d.NamesInOrder) :
    ∀ s ∈ d.varStmts, ∃ k, s.kind = .ok k ∧ ks.of? s.name = some k := by
  intro s hs
  obtain ⟨⟨n, k⟩, hmem, rfl, hkind⟩ := exists_of_mem_left (kinds_eq_ok h) hs
  exact ⟨k, hkind, (Kinds.of?_eq_some_iff (kinds_nodup h hn)).mpr hmem⟩

/-- **What is known of a model that is accepted.** -/
theorem analyze_eq_ok {a : Analysis} (h : d.analyze = .ok a) :
    a.definition = d ∧ d.timespec = .ok a.timespec ∧ d.scope = .ok a.scope ∧
      d.kinds = .ok a.kinds := by
  obtain ⟨timespec, htimespec, h⟩ := bind_eq_ok.mp h
  obtain ⟨scope, hscope, h⟩ := bind_eq_ok.mp h
  obtain ⟨kinds, hkinds, h⟩ := bind_eq_ok.mp h
  cases h
  exact ⟨rfl, mapError_eq_ok.mp htimespec, hscope, hkinds⟩

end Definition

end StockFlow
