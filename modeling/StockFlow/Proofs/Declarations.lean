import StockFlow.Proofs.Inheritance
import StockFlow.Proofs.Project

/-!
# The order of declarations

A file may refer forwards and backwards. Whether its models can be told all their statements, looked
at and made ready to be computed is a property of the set of its declarations.

* `File.reordered` — a file with its declarations in another order
* `File.definitions_reordered` — it has the same definitions, in that order
* `Project.models_reordered` — and the same models
-/

namespace StockFlow

open ModelDecl

/-! ## Lineages -/

namespace ModelDecl

variable {models models' : List ModelDecl} {m p : ModelDecl} {chain : List ModelDecl}

theorem StartsFrom.of_subset (h : StartsFrom models m p) (hsub : models ⊆ models') :
    StartsFrom models' m p := ⟨hsub h.1, h.2⟩

theorem Lineage.of_subset (h : Lineage models m chain) (hsub : models ⊆ models') :
    Lineage models' m chain := by
  induction h with
  | root hroot => exact .root hroot
  | child hp _ ih => exact .child (hp.of_subset hsub) ih

end ModelDecl

/-! ## Definitions -/

namespace File

variable {file : File} {decls : List Decl} {ds ds' : List Definition}

/-- A file with other declarations, or with the same in another order. -/
def reordered (file : File) (decls : List Decl) : File := { file with decls }

theorem models_reordered (h : decls.Perm file.decls) :
    (file.reordered decls).models.Perm file.models := h.filterMap _

/-- **Whether models can be told all their statements does not depend on the order.** -/
theorem Inheritable.reordered (hf : file.Inheritable) (h : decls.Perm file.decls) :
    (file.reordered decls).Inheritable := by
  have hmodels := models_reordered h
  refine ⟨(h.map Decl.name).nodup_iff.mpr hf.distinct, ?_, ?_, ?_⟩
  · intro m hm n span hparent
    obtain ⟨p, hp, hname⟩ := hf.known m (hmodels.mem_iff.mp hm) n span hparent
    exact ⟨p, hmodels.mem_iff.mpr hp, hname⟩
  · intro m hm hcircle
    refine hf.acyclic m (hmodels.mem_iff.mp hm) (Relation.TransGen.mono ?_ m m hcircle)
    exact fun a b hab => hab.of_subset hmodels.subset
  · exact fun m hm => hf.once m (hmodels.mem_iff.mp hm)

theorem Unfolds.reordered {d : Decl} {o : Option Definition} (hd : file.Unfolds d o)
    (h : decls.Perm file.decls) : (file.reordered decls).Unfolds d o := by
  cases hd with
  | kind hnone => exact .kind hnone
  | model hsome hlineage hown =>
    exact .model hsome (hlineage.of_subset (models_reordered h).symm.subset) hown

/-- Where names are distinct, a declaration gives rise to one thing. -/
theorem rightUnique_unfolds (hnd : (file.models.map ModelDecl.name).Nodup) :
    Relator.RightUnique file.Unfolds := by
  intro d o o' h h'
  cases h with
  | kind hnone =>
    cases h' with
    | kind => rfl
    | model hsome => cases hnone.symm.trans hsome
  | model hsome hlineage =>
    cases h' with
    | kind hnone => cases hnone.symm.trans hsome
    | model hsome' hlineage' =>
      cases hsome.symm.trans hsome'
      rw [hlineage.unique hnd hlineage']

/-- **A file with its declarations in another order has the same definitions, in that order.** -/
theorem definitions_reordered (h : decls.Perm file.decls) (hds : file.definitions = .ok ds) :
    ∃ ds', (file.reordered decls).definitions = .ok ds' ∧ ds'.Perm ds := by
  obtain ⟨ds', hds'⟩ := definitions_of_inheritable ((inheritable_of_definitions hds).reordered h)
  refine ⟨ds', hds', ?_⟩
  obtain ⟨_, found, hfound, rfl⟩ := unfolds_of_definitions hds
  obtain ⟨hnd', found', hfound', rfl⟩ := unfolds_of_definitions hds'
  have hnames := hnd'.sublist (names_models_sublist _)
  -- the same declarations in the new order give rise to the same things in the new order
  obtain ⟨moved, hmoved, hperm⟩ := List.perm_comp_forall₂ h hfound
  have hsame : found' = moved := (rightUnique_unfolds hnames).forall₂ hfound'
    (hmoved.imp fun _ _ hd => hd.reordered h)
  rw [hsame]
  exact hperm.filterMap _

/-- Definitions have the names of models, in their order. -/
theorem map_name_definitions (hds : file.definitions = .ok ds) :
    ds.map Definition.name = file.models.map ModelDecl.name := by
  obtain ⟨_, found, hfound, rfl⟩ := unfolds_of_definitions hds
  exact map_eq_of_forall₂ ((forall₂_definitions hfound).imp fun _ _ h => h.1)

end File

/-! ## Models -/

namespace Noted

variable {α β : Type}

theorem result_andThen (n : Noted α) (next : α → Noted β) :
    (n.andThen next).result = (n.result >>= fun a => (next a).result) := by
  unfold andThen
  cases n.result <;> rfl

theorem result_each (f : α → Noted β) (as : List α) :
    (each f as).result = as.mapM fun a => (f a).result := by
  induction as with
  | nil => rfl
  | cons a as ih =>
    rw [each, result_andThen, List.mapM_cons]
    refine bind_congr fun b => ?_
    rw [result_andThen, ih]
    rfl

end Noted

theorem Analysis.result_compiled (a : Analysis) : a.compiled.result = a.compile := by
  unfold compiled
  cases a.compile <;> rfl

namespace Project

variable {file : File} {decls : List Decl} {ds ds' : List Definition} {p p' : Project}

/-- What it takes to make definitions ready to be computed. -/
theorem ofDefinitions_eq_ok_iff : (ofDefinitions ds).result = .ok p ↔
    ∃ as, ds.mapM Definition.analyze = .ok as ∧ as.mapM Analysis.compile = .ok p.models := by
  rw [ofDefinitions, Noted.result_andThen, Noted.result_each, bind_eq_ok]
  refine exists_congr fun as => and_congr_right fun _ => ?_
  rw [Noted.result_andThen, Noted.result_each]
  simp only [Analysis.result_compiled]
  rw [bind_eq_ok]
  constructor
  · rintro ⟨ms, hms, h⟩
    cases h
    exact hms
  · exact fun hms => ⟨p.models, hms, rfl⟩

theorem ofFile_eq_ok_iff : (ofFile file).2 = .ok p ↔ file.unreadable? = none ∧
    ∃ ds, file.definitions = .ok ds ∧ (ofDefinitions ds).result = .ok p := by
  unfold ofFile
  cases file.unreadable? with
  | some e => simp
  | none =>
    cases file.definitions with
    | error e => simp
    | ok ds => simp [mapError_eq_ok]

/-- **Definitions in another order make the same models,** in that order. -/
theorem ofDefinitions_reordered (h : ds'.Perm ds) (hp : (ofDefinitions ds).result = .ok p) :
    ∃ p', (ofDefinitions ds').result = .ok p' ∧ p'.models.Perm p.models := by
  obtain ⟨as, has, hms⟩ := ofDefinitions_eq_ok_iff.mp hp
  obtain ⟨as', has', hperm⟩ := mapM_perm h has
  obtain ⟨ms', hms', hperm'⟩ := mapM_perm hperm hms
  exact ⟨⟨ms'⟩, ofDefinitions_eq_ok_iff.mpr ⟨as', has', hms'⟩, hperm'⟩

/-- Models have the names of their definitions, in their order. -/
theorem map_name_ofDefinitions (hp : (ofDefinitions ds).result = .ok p) :
    p.models.map Model.name = ds.map Definition.name := by
  obtain ⟨as, has, hms⟩ := ofDefinitions_eq_ok_iff.mp hp
  rw [mapM_eq_ok] at has hms
  generalize p.models = ms at hms ⊢
  clear hp
  induction has generalizing ms with
  | nil =>
    cases hms
    rfl
  | cons hd _ ih =>
    cases hms with
    | cons ha hms => rw [List.map_cons, List.map_cons, name_of_compile hd ha, ih _ hms]

/-- The models of a file have the names of its models and interfaces, in their order. -/
theorem map_name_ofFile (hp : (ofFile file).2 = .ok p) :
    p.models.map Model.name = file.models.map ModelDecl.name := by
  obtain ⟨_, ds, hds, hp⟩ := ofFile_eq_ok_iff.mp hp
  rw [map_name_ofDefinitions hp, File.map_name_definitions hds]

theorem nodup_of_ofFile (hp : (ofFile file).2 = .ok p) : (p.models.map Model.name).Nodup := by
  obtain ⟨_, ds, hds, _⟩ := ofFile_eq_ok_iff.mp hp
  rw [map_name_ofFile hp]
  exact (File.unfolds_of_definitions hds).1.sublist file.names_models_sublist

/-- **A file with its declarations in another order has the same models.** -/
theorem models_reordered (h : decls.Perm file.decls) (hp : (ofFile file).2 = .ok p) :
    ∃ p', (ofFile (file.reordered decls)).2 = .ok p' ∧ p'.models.Perm p.models := by
  obtain ⟨hread, ds, hds, hp⟩ := ofFile_eq_ok_iff.mp hp
  obtain ⟨ds', hds', hperm⟩ := File.definitions_reordered h hds
  obtain ⟨p', hp', hmodels⟩ := ofDefinitions_reordered hperm hp
  exact ⟨p', ofFile_eq_ok_iff.mpr ⟨hread, ds', hds', hp'⟩, hmodels⟩

end Project

theorem File.analyze_eq_ok_iff {file : File} {as : List Analysis} :
    file.analyze = .ok as ↔ file.unreadable? = none ∧
      ∃ ds, file.definitions = .ok ds ∧ ds.mapM Definition.analyze = .ok as := by
  unfold analyze
  cases file.unreadable? with
  | some e => simp
  | none =>
    refine Iff.trans ?_ (and_iff_right rfl).symm
    rw [bind_eq_ok]
    exact exists_congr fun ds => and_congr mapError_eq_ok mapError_eq_ok

/-- The same for looking at definitions. -/
theorem File.analyze_reordered {file : File} {decls : List Decl} {as : List Analysis}
    (h : decls.Perm file.decls) (has : file.analyze = .ok as) :
    ∃ as', (file.reordered decls).analyze = .ok as' ∧ as'.Perm as := by
  obtain ⟨hread, ds, hds, has⟩ := analyze_eq_ok_iff.mp has
  obtain ⟨ds', hds', hperm⟩ := definitions_reordered h hds
  obtain ⟨as', has', hanalyses⟩ := mapM_perm hperm has
  exact ⟨as', analyze_eq_ok_iff.mpr ⟨hread, ds', hds', has'⟩, hanalyses⟩

/-! ## Both ways -/

namespace Project

/-- What holds of a file whenever it holds of one with another order, holds of both or neither. -/
theorem iff_of_reordered {P : File → Prop} {file : File} {decls : List Decl}
    (h : decls.Perm file.decls)
    (hP : ∀ (file : File) (decls : List Decl), decls.Perm file.decls → P file →
      P (file.reordered decls)) : P (file.reordered decls) ↔ P file :=
  ⟨hP (file.reordered decls) file.decls h.symm, hP file decls h⟩

/-- **The order of declarations does not matter.** A file with its declarations in another order has
definitions, can be looked at and has models exactly if the file has. The models then stand in the
order of their declarations, and under each name stands the same model. -/
theorem order_of_declarations (file : File) {decls : List Decl} (h : decls.Perm file.decls) :
    ((∃ ds, (file.reordered decls).definitions = .ok ds) ↔ ∃ ds, file.definitions = .ok ds) ∧
      ((∃ as, (file.reordered decls).analyze = .ok as) ↔ ∃ as, file.analyze = .ok as) ∧
      ((∃ p, (ofFile (file.reordered decls)).2 = .ok p) ↔ ∃ p, (ofFile file).2 = .ok p) ∧
      ∀ p p', (ofFile file).2 = .ok p → (ofFile (file.reordered decls)).2 = .ok p' →
        p'.models.map Model.name = (file.reordered decls).models.map ModelDecl.name ∧
          p'.models.Perm p.models ∧ ∀ name, p'.model? name = p.model? name := by
  refine ⟨iff_of_reordered (P := fun f => ∃ ds, f.definitions = .ok ds) h ?_,
    iff_of_reordered (P := fun f => ∃ as, f.analyze = .ok as) h ?_,
    iff_of_reordered (P := fun f => ∃ p, (ofFile f).2 = .ok p) h ?_, ?_⟩
  · rintro file decls h ⟨ds, hds⟩
    obtain ⟨ds', hds', _⟩ := File.definitions_reordered h hds
    exact ⟨ds', hds'⟩
  · rintro file decls h ⟨as, has⟩
    obtain ⟨as', has', _⟩ := File.analyze_reordered h has
    exact ⟨as', has'⟩
  · rintro file decls h ⟨p, hp⟩
    obtain ⟨p', hp', _⟩ := models_reordered h hp
    exact ⟨p', hp'⟩
  · intro p p' hp hp'
    obtain ⟨q, hq, hperm⟩ := models_reordered h hp
    rw [hp'] at hq
    cases hq
    exact ⟨map_name_ofFile hp', hperm, fun name => find?_eq_of_perm (nodup_of_ofFile hp) hperm name⟩

/-- The models of a text whose declarations refer forwards and backwards, if they are these. -/
def familyProject : Option Project := do
  let p ← (ofText File.family).toOption
  if p.models.map Model.name = ["main", "base", "middle"] then some p else none

/-- The same text with its declarations backwards. -/
def familyBackwards : File :=
  (File.parse File.family).reordered (File.parse File.family).decls.reverse

theorem order_of_declarations_family : ∃ p p', (ofFile (File.parse File.family)).2 = .ok p ∧
    (ofFile familyBackwards).2 = .ok p' ∧ p.models.map Model.name = ["main", "base", "middle"] ∧
    p'.models.map Model.name = ["middle", "base", "main"] ∧
    ∀ name, p'.model? name = p.model? name := by
  have hsome : familyProject.isSome = true := by decide +kernel
  obtain ⟨p, hp⟩ := Option.isSome_iff_exists.mp hsome
  obtain ⟨q, hq, hp⟩ := Option.bind_eq_some_iff.mp hp
  obtain ⟨hnames, hp⟩ := Option.ite_none_right_eq_some.mp hp
  obtain rfl : q = p := Option.some.inj hp
  have hok : (ofFile (File.parse File.family)).2 = .ok q := eq_ok_of_toOption hq
  have hreversed := List.reverse_perm (File.parse File.family).decls
  obtain ⟨_, _, hiff, hmain⟩ := order_of_declarations (File.parse File.family) hreversed
  obtain ⟨p', hp'⟩ := hiff.mpr ⟨q, hok⟩
  obtain ⟨horder, _, hsame⟩ := hmain q p' hok hp'
  refine ⟨q, p', hok, hp', hnames, ?_, hsame⟩
  have hbackwards : familyBackwards.models = (File.parse File.family).models.reverse :=
    List.filterMap_reverse
  have hforwards := map_name_ofFile hok
  rw [hnames] at hforwards
  rw [horder]
  show familyBackwards.models.map ModelDecl.name = _
  rw [hbackwards, List.map_reverse, ← hforwards]
  rfl

end Project

end StockFlow
