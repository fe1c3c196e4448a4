import StockFlow.Grammar.Outline
import StockFlow.Proofs.Model.Inheritance

/-!
# The definitions of a file

* `File.Inheritable` — what the declarations of a file have to keep to
* `File.unfolded` — the file with all statements of each model written out
* `File.definitions_inherit` — a file has definitions exactly if it keeps to that, they hold what
  their models inherit, and writing them out changes nothing
-/

namespace StockFlow

open ModelDecl

/-- **Every model of a file can be told all its statements:** no name is declared twice, every
parent is a model or interface of the file, no model starts from itself, and no body introduces a
name twice. -/
structure File.Inheritable (file : File) : Prop where
  distinct : (file.decls.map Decl.name).Nodup
  known : ∀ m ∈ file.models, ∀ n span, m.parent = some (n, span) → ∃ p ∈ file.models, p.name = n
  acyclic : ∀ m ∈ file.models, ¬Relation.TransGen (StartsFrom file.models) m m
  once : ∀ m ∈ file.models, m.ownNames.Nodup

/-! ## Files written out -/

/-- A model with the statements of its definition in its body, which starts from no other. -/
def ModelDecl.unfolded (ds : List Definition) (m : ModelDecl) : ModelDecl :=
  let stmts := ((ds.find? fun d => d.name = m.name).map Definition.stmts).getD m.body.stmts
  { m with parent := none, body := { m.body with stmts } }

/-- The same for a declaration. -/
def Decl.unfolded (ds : List Definition) : Decl → Decl
  | .model m => .model (m.unfolded ds)
  | .interface m => .interface (m.unfolded ds)
  | .kind k => .kind k

namespace File

/-- **The file with all statements of each model written out.** -/
def unfolded (file : File) (ds : List Definition) : File :=
  { file with decls := file.decls.map (Decl.unfolded ds) }

end File

@[simp] theorem Decl.name_unfolded (ds : List Definition) (d : Decl) :
    (d.unfolded ds).name = d.name := by cases d <;> rfl

@[simp] theorem Decl.keyword_unfolded (ds : List Definition) (d : Decl) :
    (d.unfolded ds).keyword = d.keyword := by cases d <;> rfl

theorem Decl.modelDecl?_unfolded (ds : List Definition) (d : Decl) :
    (d.unfolded ds).modelDecl? = d.modelDecl?.map (ModelDecl.unfolded ds) := by cases d <;> rfl

namespace File

variable {file : File} {ds : List Definition}

/-! ## Definitions one by one -/

theorem names_models_sublist (file : File) :
    (file.models.map ModelDecl.name).Sublist (file.decls.map Decl.name) := by
  refine map_filterMap_sublist (fun d m h => ?_) file.decls
  cases d with
  | model m' | interface m' =>
    cases h
    rfl
  | kind k => cases h

/-- **What a declaration gives rise to:** nothing if it is one of a kind, and otherwise the merged
statements of a lineage. -/
inductive Unfolds (file : File) : Decl → Option Definition → Prop
  | kind {d : Decl} : d.modelDecl? = none → Unfolds file d none
  | model {d : Decl} {m : ModelDecl} {chain : List ModelDecl} : d.modelDecl? = some m →
    Lineage file.models m chain → (∀ a ∈ chain, a.ownNames.Nodup) →
    Unfolds file d (some ⟨m.name, d.keyword = .interface, merged chain, m.span⟩)

theorem definition?_of_none {d : Decl} (hd : d ∈ file.decls) (h : d.modelDecl? = none) :
    file.definition? d hd = .ok none := by
  unfold definition?
  split
  · rfl
  · next hsome =>
    rw [h] at hsome
    cases hsome

theorem definition?_of_some {d : Decl} {m : ModelDecl} (hd : d ∈ file.decls)
    (h : d.modelDecl? = some m) : file.definition? d hd =
      some <$> m.definition file.models (d.keyword = .interface) (mem_models hd h) := by
  unfold definition?
  split
  · next hnone =>
    rw [h] at hnone
    cases hnone
  · next hsome =>
    rw [h] at hsome
    cases hsome
    rfl

theorem unfolds_of_definition? {d : Decl} {o : Option Definition} (hd : d ∈ file.decls)
    (h : file.definition? d hd = .ok o) : file.Unfolds d o := by
  cases hm : d.modelDecl? with
  | none =>
    rw [definition?_of_none hd hm] at h
    cases h
    exact .kind hm
  | some m =>
    rw [definition?_of_some hd hm] at h
    obtain ⟨def', hdef, rfl⟩ := map_eq_ok.mp h
    obtain ⟨chain, hchain, hdef⟩ := bind_eq_ok.mp hdef
    obtain ⟨stmts, hstmts, hdef⟩ := bind_eq_ok.mp hdef
    obtain ⟨hown, rfl⟩ := inherit_eq_ok_iff.mp hstmts
    cases hdef
    exact .model hm (lineage_of_chain _ _ _ _ hchain) hown

theorem definitions_eq_ok_iff : file.definitions = .ok ds ↔ (file.decls.map Decl.name).Nodup ∧
    ∃ found, List.Forall₂ (fun d o => ∃ hd, file.definition? d hd = .ok o) file.decls found ∧
      ds = found.filterMap id := by
  have hnames : firstRepeated? [] (file.decls.map Decl.name) = none ↔
      (file.decls.map Decl.name).Nodup := by
    rw [firstRepeated?_eq_none_iff]
    exact and_iff_left fun n _ => List.not_mem_nil
  have hsides : ∀ found, (file.decls.attach.mapM fun x => file.definition? x.1 x.2) = .ok found ↔
      List.Forall₂ (fun d o => ∃ hd, file.definition? d hd = .ok o) file.decls found := by
    intro found
    refine mapM_eq_ok.trans (Iff.trans ?_ forall₂_attach_iff)
    exact ⟨fun h => h.imp fun x _ hx => ⟨x.2, hx⟩, fun h => h.imp fun _ _ hx => hx.choose_spec⟩
  unfold definitions
  cases hrep : firstRepeated? [] (file.decls.map Decl.name) with
  | some n =>
    refine iff_of_false (fun h => ?_) fun h => ?_
    · cases h
    · rw [hnames.mpr h.1] at hrep
      cases hrep
  | none =>
    refine Iff.trans ?_ (and_iff_right (hnames.mp hrep)).symm
    rw [bind_eq_ok]
    refine exists_congr fun found => and_congr (hsides found) ?_
    exact ⟨fun h => (Except.ok.inj h).symm, fun h => congrArg _ h.symm⟩

/-- Definitions come from declarations one by one. -/
theorem unfolds_of_definitions (h : file.definitions = .ok ds) :
    (file.decls.map Decl.name).Nodup ∧
      ∃ found, List.Forall₂ file.Unfolds file.decls found ∧ ds = found.filterMap id := by
  obtain ⟨hnd, found, hfound, hds⟩ := definitions_eq_ok_iff.mp h
  exact ⟨hnd, found, hfound.imp fun d o ⟨hd, hdef⟩ => unfolds_of_definition? hd hdef, hds⟩

/-- **The definitions stand beside the models.** -/
theorem forall₂_definitions {found : List (Option Definition)}
    (h : List.Forall₂ file.Unfolds file.decls found) :
    List.Forall₂ (fun m d => d.name = m.name ∧ d.span = m.span ∧ ∃ chain,
        Lineage file.models m chain ∧ (∀ a ∈ chain, a.ownNames.Nodup) ∧ d.stmts = merged chain)
      file.models (found.filterMap id) := by
  refine List.rel_filterMap (R := file.Unfolds) ?_ h
  intro d o hdo
  cases hdo with
  | kind hnone =>
    rw [hnone]
    exact .none
  | model hsome hlineage hown =>
    rw [hsome]
    exact .some ⟨rfl, rfl, _, hlineage, hown, rfl⟩

/-! ## When there are definitions -/

theorem inheritable_of_definitions (h : file.definitions = .ok ds) : file.Inheritable := by
  obtain ⟨hnd, found, hfound, rfl⟩ := unfolds_of_definitions h
  have hnd' := hnd.sublist file.names_models_sublist
  have hlineage : ∀ m ∈ file.models, ∃ chain, Lineage file.models m chain ∧
      ∀ a ∈ chain, a.ownNames.Nodup := by
    intro m hm
    obtain ⟨d, _, _, _, chain, hchain, hown, _⟩ :=
      exists_of_mem_left (forall₂_definitions hfound) hm
    exact ⟨chain, hchain, hown⟩
  refine ⟨hnd, fun m hm n span hparent => ?_, fun m hm => ?_, fun m hm => ?_⟩
  · obtain ⟨chain, hchain, _⟩ := hlineage m hm
    cases hchain with
    | root hroot =>
      rw [hroot] at hparent
      cases hparent
    | child hp _ =>
      obtain ⟨hmem, span', hparent'⟩ := hp
      rw [hparent'] at hparent
      exact ⟨_, hmem, (Prod.mk.inj (Option.some.inj hparent)).1⟩
  · obtain ⟨chain, hchain, _⟩ := hlineage m hm
    exact hchain.not_circular hnd'
  · obtain ⟨chain, hchain, hown⟩ := hlineage m hm
    exact hown m hchain.self_mem

theorem definitions_of_inheritable (h : file.Inheritable) : ∃ ds, file.definitions = .ok ds := by
  have hnd' := h.distinct.sublist file.names_models_sublist
  have hall : ∀ d ∈ file.decls, ∃ o, ∃ hd, file.definition? d hd = .ok o := by
    intro d hd
    cases hm : d.modelDecl? with
    | none => exact ⟨none, hd, definition?_of_none hd hm⟩
    | some m =>
      have hmem := mem_models hd hm
      obtain ⟨chain, hchain⟩ := chain_isOk hnd' h.known h.acyclic [] m hmem nofun
      have hsub := (lineage_of_chain _ _ _ _ hchain).subset hmem
      have hstmts : inherit chain = .ok (merged chain) :=
        inherit_eq_ok_iff.mpr ⟨fun a ha => h.once a (hsub ha), rfl⟩
      refine ⟨some ⟨m.name, d.keyword = .interface, merged chain, m.span⟩, hd, ?_⟩
      rw [definition?_of_some hd hm, ModelDecl.definition, hchain]
      exact map_eq_ok.mpr ⟨_, bind_eq_ok.mpr ⟨_, rfl, bind_eq_ok.mpr ⟨_, hstmts, rfl⟩⟩, rfl⟩
  obtain ⟨found, hfound⟩ := exists_forall₂_iff.mpr hall
  exact ⟨_, definitions_eq_ok_iff.mpr ⟨h.distinct, found, hfound, rfl⟩⟩

/-! ## Writing definitions out -/

/-- A model that is written out has the statements that it had inherited. -/
theorem definition?_unfolded {d : Decl} {o : Option Definition}
    (hnd : (ds.map Definition.name).Nodup) (hd : d ∈ file.decls) (ho : ∀ def' ∈ o, def' ∈ ds)
    (h : file.Unfolds d o) :
    ∃ hd', (file.unfolded ds).definition? (d.unfolded ds) hd' = .ok o := by
  have hd' : d.unfolded ds ∈ (file.unfolded ds).decls := List.mem_map_of_mem hd
  refine ⟨hd', ?_⟩
  cases h with
  | kind hnone =>
    refine definition?_of_none hd' ?_
    rw [Decl.modelDecl?_unfolded, hnone]
    rfl
  | @model m chain hsome hlineage hown =>
    have hfind := find?_eq_of_nodup_map hnd (ho _ rfl)
    have hstmts : (m.unfolded ds).body.stmts = merged chain := by
      simp only [ModelDecl.unfolded, hfind, Option.map_some, Option.getD_some]
    have hdistinct : (m.unfolded ds).ownNames.Nodup := by
      rw [ownNames, hstmts, map_name_merged]
      exact nodup_eraseDups _
    have hmem : (d.unfolded ds).modelDecl? = some (m.unfolded ds) := by
      rw [Decl.modelDecl?_unfolded, hsome]
      rfl
    have hinherit : inherit [m.unfolded ds] = .ok (merged chain) := by
      have hmerge : Stmt.merge [] (m.unfolded ds).body.stmts = [] ++ (m.unfolded ds).body.stmts :=
        Stmt.merge_of_nodup hdistinct
      refine inherit_eq_ok_iff.mpr ⟨List.forall_mem_singleton.mpr hdistinct, ?_⟩
      rw [← hstmts]
      exact hmerge.symm
    rw [definition?_of_some hd' hmem, ModelDecl.definition, chain_of_root _ List.not_mem_nil rfl,
      Decl.keyword_unfolded]
    exact map_eq_ok.mpr ⟨_, bind_eq_ok.mpr ⟨_, rfl, bind_eq_ok.mpr ⟨_, hinherit, rfl⟩⟩, rfl⟩

theorem definitions_unfolded (h : file.definitions = .ok ds) :
    (file.unfolded ds).definitions = .ok ds := by
  obtain ⟨hnd, found, hfound, hds⟩ := unfolds_of_definitions h
  have hnames : ds.map Definition.name = file.models.map ModelDecl.name := by
    rw [hds]
    exact map_eq_of_forall₂ ((forall₂_definitions hfound).imp fun _ _ h => h.1)
  have hnd' : (ds.map Definition.name).Nodup := by
    rw [hnames]
    exact hnd.sublist file.names_models_sublist
  have hmem : ∀ o ∈ found, ∀ def' ∈ o, def' ∈ ds := by
    intro o ho def' hdef
    rw [hds]
    exact List.mem_filterMap.mpr ⟨o, ho, hdef⟩
  refine definitions_eq_ok_iff.mpr ⟨?_, found, ?_, hds⟩
  · show ((file.decls.map (Decl.unfolded ds)).map Decl.name).Nodup
    rw [List.map_map]
    simpa only [Function.comp_def, Decl.name_unfolded] using hnd
  · show List.Forall₂ _ (file.decls.map (Decl.unfolded ds)) found
    rw [List.forall₂_map_left_iff]
    have hleft := (List.forall₂_and_left _ _).mpr ⟨fun d (hd : d ∈ file.decls) => hd, hfound⟩
    have hboth := (List.forall₂_and_left _ _).mpr ⟨hmem, hleft.flip⟩
    exact hboth.flip.imp fun d o ⟨ho, hd, hdo⟩ => definition?_unfolded hnd' hd ho hdo

/-! ## Inheritance -/

/-- **A file has definitions exactly if every model of it can be told all its statements.** Beside
each model then stands the definition that inherits from its one lineage, and the file in which all
these statements are written out has the same definitions. -/
theorem definitions_inherit (file : File) :
    ((∃ ds, file.definitions = .ok ds) ↔ file.Inheritable) ∧
      ∀ ds, file.definitions = .ok ds →
        List.Forall₂ (fun m d => d.name = m.name ∧ d.span = m.span ∧ ∃ chain,
          (∀ c, Lineage file.models m c ↔ c = chain) ∧ d.Inherits chain) file.models ds ∧
        (file.unfolded ds).definitions = .ok ds := by
  refine ⟨⟨fun ⟨ds, h⟩ => inheritable_of_definitions h, definitions_of_inheritable⟩, ?_⟩
  intro ds h
  refine ⟨?_, definitions_unfolded h⟩
  obtain ⟨hnd, found, hfound, rfl⟩ := unfolds_of_definitions h
  have hnd' := hnd.sublist file.names_models_sublist
  refine (forall₂_definitions hfound).imp ?_
  rintro m d ⟨hname, hspan, chain, hchain, hown, hstmts⟩
  refine ⟨hname, hspan, chain, fun c => ⟨fun hc => hc.unique hnd' hchain, ?_⟩,
    Definition.inherits_of_merged hown hstmts⟩
  rintro rfl
  exact hchain

/-- A model that starts from another, which starts from an interface. -/
def family : String :=
  "model main specializes middle \x7b c = 5; e = a; \x7d " ++
    "interface base \x7b a; b = a * 2; c = 3; \x7d " ++
    "model middle specializes base \x7b a = 1; d = c; \x7d"

/-- Its definitions, if the names of the first are in the order in which they occur first. -/
def familyDefinitions : Option (List Definition) := do
  let ds ← (File.parse family).definitions.toOption
  let d ← ds.head?
  if d.stmts.map Stmt.name = ["a", "b", "c", "d", "e"] then some ds else none

theorem definitions_inherit_family : ∃ d ds chain, (File.parse family).definitions = .ok (d :: ds) ∧
    (File.parse family).Inheritable ∧ d.Inherits chain ∧
    d.stmts.map Stmt.name = ["a", "b", "c", "d", "e"] ∧
    ((File.parse family).unfolded (d :: ds)).definitions = .ok (d :: ds) := by
  have hsome : familyDefinitions.isSome = true := by decide +kernel
  obtain ⟨ds, hds⟩ := Option.isSome_iff_exists.mp hsome
  obtain ⟨ds', hok, hds⟩ := Option.bind_eq_some_iff.mp hds
  obtain ⟨d, hd, hds⟩ := Option.bind_eq_some_iff.mp hds
  obtain ⟨hnames, hds⟩ := Option.ite_none_right_eq_some.mp hds
  cases hds
  obtain ⟨rest, rfl⟩ := List.head?_eq_some_iff.mp hd
  have hdefs : (File.parse family).definitions = .ok (d :: rest) := by
    cases h : (File.parse family).definitions with
    | error e =>
      rw [h] at hok
      cases hok
    | ok ds =>
      rw [h] at hok
      exact congrArg _ (Option.some.inj hok)
  obtain ⟨hiff, hmain⟩ := definitions_inherit (File.parse family)
  obtain ⟨hbeside, hunfolded⟩ := hmain _ hdefs
  obtain ⟨m, _, _, _, chain, _, hchain⟩ := exists_of_mem_right hbeside (List.mem_cons_self ..)
  exact ⟨d, rest, chain, hdefs, hiff.mp ⟨_, hdefs⟩, hchain, hnames, hunfolded⟩

end File

end StockFlow
