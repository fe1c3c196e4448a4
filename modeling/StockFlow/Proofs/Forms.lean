import StockFlow.Proofs.Equation.Malformed
import StockFlow.Proofs.Grammar.Values
import StockFlow.Proofs.Inheritance
import StockFlow.Proofs.Project

/-!
# The form of values, from the text to the rules

* `File.fits_of_mem_definition` — what the statements of a definition say is read from the text
* `File.forms_agree` — the readers, the kinds and the rules agree on the form of a value
-/

namespace StockFlow.File

/-- **What the statements of a definition say are trees of the grammar,** since every statement is
one of a body of the file. -/
theorem fits_of_mem_definition {text : String} {ds : List Definition} {d : Definition}
    (hds : (File.parse text).definitions = .ok ds) (hd : d ∈ ds) :
    ∀ s ∈ d.stmts, ∀ v, s.value = some v → v.Fits .annotated := by
  intro s hs v hv
  obtain ⟨_, found, hfound, rfl⟩ := unfolds_of_definitions hds
  obtain ⟨m, hm, _, _, chain, hchain, hown, hstmts⟩ :=
    exists_of_mem_right (forall₂_definitions hfound) hd
  obtain ⟨before, owner, after, rfl, hbody, _⟩ := ModelDecl.mem_merged hown (hstmts ▸ hs)
  have howner := hchain.subset hm (List.mem_append_right before (List.mem_cons_self ..))
  obtain ⟨decl, hdecl, hmodel⟩ := List.mem_filterMap.mp howner
  refine fits_of_mem_values (List.mem_flatMap.mpr ⟨decl, hdecl, ?_⟩)
  rw [Decl.values, hmodel, Option.elim_some]
  exact List.mem_filterMap.mpr ⟨s, hbody, hv⟩

/-- **The readers, the kinds and the rules agree on the form of a value.** In every definition of a
text, each variable of a model that is looked at without a fault has a kind, and its value the form
of one of that kind; if the model cannot be made ready all the same, the fault does not blame the
form of a value. The elements of its time specification are never blamed for theirs. -/
theorem forms_agree {text : String} {ds : List Definition} {d : Definition}
    (hds : (File.parse text).definitions = .ok ds) (hd : d ∈ ds) :
    (∀ a, d.analyze = .ok a →
      (∀ s ∈ d.varStmts, ∃ k, a.kinds.of? s.name = some k ∧ s.Matches k) ∧
      ∀ fault, a.compile = .error fault → fault.isMalformed = false) ∧
    ∀ fault, d.timespec = .error fault → fault.isMalformed = false := by
  have hfit := fits_of_mem_definition hds hd
  have hvars : ∀ s ∈ d.varStmts, ∀ v, s.value = some v → v.Fits .annotated :=
    fun s hs => hfit s (List.mem_of_mem_filter hs)
  refine ⟨fun a ha => ⟨fun s hs => ?_, Analysis.compile_avoids ha hvars⟩,
    Definition.timespec_avoids hfit⟩
  obtain ⟨_, _, hscope, hkinds⟩ := Definition.analyze_eq_ok ha
  obtain ⟨hnames, _⟩ := Definition.namesInOrder_of_scope hscope
  obtain ⟨k, hkind, hof⟩ := Definition.kinds_of? hkinds hnames s hs
  exact ⟨k, hof, Stmt.matches_of_kind (hvars s hs) hkind⟩

/-- Variables of all forms, of which the last reads a table without looking it up. -/
def misuse : String :=
  "model main \x7b timespec = \x7bstart: 0, end: 2, dt: 1\x7d; given; " ++
    "level = stock \x7binitial: 1, inflow: given\x7d \"m\"; three const = 3; " ++
    "curve = [(0, 0), (1, 1)]; seen = [(0, 0), (1, 1)][time] \"m\"; wrong = curve; \x7d"

/-- Its only definition, what is found when it is looked at and why it cannot be made ready. -/
def misuseRefused : Option (List Definition × Definition × Analysis × ModelFault) := do
  let ds ← (File.parse misuse).definitions.toOption
  let d ← ds.head?
  let a ← d.analyze.toOption
  match a.compile with
  | .error fault => if d.varStmts.length = 6 then some (ds, d, a, fault) else none
  | .ok _ => none

theorem forms_agree_misuse : ∃ ds d a fault, (File.parse misuse).definitions = .ok ds ∧ d ∈ ds ∧
    d.analyze = .ok a ∧ a.compile = .error fault ∧ d.varStmts.length = 6 ∧
    (∀ s ∈ d.varStmts, ∃ k, a.kinds.of? s.name = some k ∧ s.Matches k) ∧
    fault.isMalformed = false := by
  have hsome : misuseRefused.isSome = true := by decide +kernel
  obtain ⟨refused, hrefused⟩ := Option.isSome_iff_exists.mp hsome
  obtain ⟨ds, hds, hrefused⟩ := Option.bind_eq_some_iff.mp hrefused
  obtain ⟨d, hd, hrefused⟩ := Option.bind_eq_some_iff.mp hrefused
  obtain ⟨a, ha, hrefused⟩ := Option.bind_eq_some_iff.mp hrefused
  have hds := Project.eq_ok_of_toOption hds
  have hd := List.mem_of_mem_head? hd
  have ha := Project.eq_ok_of_toOption ha
  cases hcompile : a.compile with
  | ok m =>
    rw [hcompile] at hrefused
    cases hrefused
  | error fault =>
    simp only [hcompile] at hrefused
    obtain ⟨hlength, _⟩ := Option.ite_none_right_eq_some.mp hrefused
    obtain ⟨hkinds, hfault⟩ := (forms_agree hds hd).1 a ha
    exact ⟨ds, d, a, fault, hds, hd, ha, hcompile, hlength, hkinds, hfault fault hcompile⟩

end StockFlow.File
