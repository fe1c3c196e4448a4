import StockFlow.Proofs.Equation.InOrder
import StockFlow.Proofs.Model.Names

/-!
# The statements of a model in another order

* `Definition.rearranged` — a model with its statements in another order
* `Definition.timespec_rearranged` — its time specification is the same
* `Definition.scope_rearranged`, `Definition.kinds_rearranged` — its names and kinds are as well
-/

namespace StockFlow

/-- A model with other statements. -/
def Definition.rearranged (d : Definition) (stmts : List Stmt) : Definition := { d with stmts }

namespace Definition

variable {d : Definition} {stmts : List Stmt}

/-! ## The time specification -/

theorem timespec_rearranged (hnd : (d.stmts.map Stmt.name).Nodup) (hp : stmts.Perm d.stmts) :
    (d.rearranged stmts).timespec = d.timespec := by
  have hfind : (d.rearranged stmts).timespecStmt? = d.timespecStmt? :=
    find?_eq_of_perm hnd hp timespecName
  unfold timespec
  rw [hfind]
  rfl

/-! ## Names -/

theorem varStmts_rearranged (hp : stmts.Perm d.stmts) :
    (d.rearranged stmts).varStmts.Perm d.varStmts := hp.filter _

theorem NamesInOrder.rearranged (h : d.NamesInOrder) (hp : stmts.Perm d.stmts) :
    (d.rearranged stmts).NamesInOrder := by
  have hvars := varStmts_rearranged hp
  have hnames : (d.rearranged stmts).varNames.Perm d.varNames := hvars.map Stmt.name
  refine ⟨hnames.nodup_iff.mpr h.distinct, fun s hs => h.explicit s (hvars.mem_iff.mp hs), ?_⟩
  intro s hs r hr
  exact (h.known s (hvars.mem_iff.mp hs) r hr).imp_left hnames.mem_iff.mpr

theorem scope_rearranged (hp : stmts.Perm d.stmts) {sc : Scope} (h : d.scope = .ok sc) :
    ∃ sc', (d.rearranged stmts).scope = .ok sc' ∧ sc'.isAbstract = sc.isAbstract := by
  obtain ⟨hnames, habs⟩ := namesInOrder_of_scope h
  obtain ⟨sc', hsc'⟩ := scope_of_namesInOrder (hnames.rearranged hp)
  obtain ⟨-, habs'⟩ := namesInOrder_of_scope hsc'
  exact ⟨sc', hsc', by rw [habs, habs', (varStmts_rearranged hp).any_eq]⟩

/-! ## Kinds -/

theorem kinds_rearranged (hp : stmts.Perm d.stmts) {ks : Kinds} (h : d.kinds = .ok ks) :
    ∃ ks', (d.rearranged stmts).kinds = .ok ks' ∧ ks'.Perm ks :=
  mapM_perm (varStmts_rearranged hp) h

end Definition

/-- What a name is found to be does not depend on the order of the kinds. -/
theorem Kinds.of?_perm {ks ks' : Kinds} (hnd : (ks.map Prod.fst).Nodup) (hp : ks'.Perm ks)
    (n : String) : ks'.of? n = ks.of? n := by
  have hnd' : (ks'.map Prod.fst).Nodup := (hp.map Prod.fst).nodup_iff.mpr hnd
  refine Option.ext fun k => ?_
  rw [Kinds.of?_eq_some_iff hnd, Kinds.of?_eq_some_iff hnd', hp.mem_iff]

end StockFlow
