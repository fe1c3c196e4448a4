import StockFlow.Proofs.Equation.Contribution
import StockFlow.Proofs.Grammar.Shape

/-!
# The kinds of variables and the forms of their values

The kind of a variable is told from its value or checked against it, and both look through units in
their own way. On the trees that are read from a text they come to the same.

* `Expr.Fits.parts` — what the parts of a tree that is read look like
* `Stmt.Matches` — the form that a value has, by the kind of its variable
* `Stmt.matches_of_kind` — every variable of a text that has a kind has a value of that form
-/

namespace StockFlow

namespace Expr

variable {l : Level} {e v : Expr}

/-! ## Parts of trees -/

/-- The parts of a tree are trees of their levels. -/
def HasParts : Expr → Prop
  | .index t i _ => Fits .lookup t ∧ Fits .sum i
  | .composite _ es _ => ∀ x ∈ es, Fits .element x
  | .table ps _ => ∀ p ∈ ps, Fits .point p
  | _ => True

/-- **The parts of a tree that is read are trees of their levels.** -/
theorem Fits.parts (h : Fits l e) : e.HasParts := by
  induction h with
  | index ht hi => exact ⟨ht, hi⟩
  | composite hes => exact hes
  | table hps => exact hps
  | bare _ ih | ofProduct _ ih | ofPower _ ih | ofNegation _ ih | ofLookup _ ih | ofValue _ ih =>
    exact ih
  | _ => trivial

/-- Units stand only around a whole value. -/
theorem Fits.stripUnits_eq_self (h : Fits l e) (hl : l ≠ .annotated) : e.stripUnits = e := by
  induction h with
  | units | bare => exact absurd rfl hl
  | ofProduct _ ih | ofPower _ ih | ofNegation _ ih | ofLookup _ ih | ofValue _ ih => exact ih nofun
  | _ => rfl

/-- A whole value without its units is a sum. -/
theorem Fits.stripUnits (h : Fits .annotated v) : Fits .sum v.stripUnits := by
  cases h with
  | units hvalue => exact hvalue
  | bare hsum => rwa [hsum.stripUnits_eq_self nofun]

theorem Fits.isTable_stripUnits (h : Fits .annotated v) : v.stripUnits.isTable = v.isTable := by
  unfold isTable
  rw [h.stripUnits.stripUnits_eq_self nofun]

/-- **A table is written as one, or looked up where it is written.** -/
theorem Fits.eq_of_isTable (h : Fits .annotated v) (htable : v.isTable = true) :
    (∃ ps span, v.stripUnits = .table ps span) ∨
      ∃ ps tableSpan i span, v.stripUnits = .index (.table ps tableSpan) i span := by
  have hstrip := h.stripUnits
  unfold isTable at htable
  cases hv : v.stripUnits with
  | table ps span => exact Or.inl ⟨ps, span, rfl⟩
  | index t i span =>
    rw [hv] at hstrip
    simp only [hv, hstrip.parts.1.stripUnits_eq_self (l := .lookup) nofun] at htable
    cases t with
    | table ps tableSpan => exact Or.inr ⟨ps, tableSpan, i, span, rfl⟩
    | _ => cases htable
  | _ =>
    rw [hv] at htable
    cases htable

theorem eq_of_isStockBody (h : v.isStockBody = true) : ∃ type es span,
    v.stripUnits = .composite type es span ∧ (type = none ∨ type = some "stock") := by
  obtain ⟨type, es, span, hv⟩ := Stmt.stripUnits_of_isStockBody h
  refine ⟨type, es, span, hv, ?_⟩
  unfold isStockBody at h
  rw [hv] at h
  cases type with
  | none => exact Or.inl rfl
  | some type => exact Or.inr (congrArg some (of_decide_eq_true h))

theorem not_isTable_of_constant? (h : v.constant?.isSome = true) : v.isTable = false := by
  refine Bool.eq_false_iff.mpr fun htable => ?_
  unfold isTable at htable
  unfold constant? at h
  cases hv : v.stripUnits with
  | number | negate =>
    rw [hv] at htable
    cases htable
  | _ =>
    rw [hv] at h
    cases h

end Expr

namespace Stmt

variable {s : Stmt} {v : Expr} {k : VarKind}

/-! ## Kinds -/

/-- **The form of the value of a variable of a kind.** One without a value can be of any kind but a
table. -/
inductive Matches (s : Stmt) : VarKind → Prop
  | bare {k : VarKind} (hv : s.value = none) (hk : k ≠ .table) : s.Matches k
  | stock {v : Expr} {type : Option String} {es : List Expr} {span : Span} (hv : s.value = some v)
    (hbody : v.stripUnits = .composite type es span) (htype : type = none ∨ type = some "stock") :
    s.Matches .stock
  | table {v : Expr} {ps : List Expr} {span : Span} (hv : s.value = some v)
    (htable : v.stripUnits = .table ps span) : s.Matches .table
  | lookup {v i : Expr} {ps : List Expr} {tableSpan span : Span} (hv : s.value = some v)
    (hindex : v.stripUnits = .index (.table ps tableSpan) i span) : s.Matches .table
  | const {v : Expr} {x : Float} (hv : s.value = some v) (hx : v.constant? = some x) :
    s.Matches .const
  | computed {v : Expr} {k : VarKind} (hv : s.value = some v) (hk : k = .aux ∨ k = .flow)
    (htable : v.isTable = false) (hstock : v.isStockBody = false) : s.Matches k

/-- **A variable is a table exactly if its value is one.** -/
theorem isTable_iff_kind (hfit : v.Fits .annotated) (hv : s.value = some v) (h : s.kind = .ok k) :
    v.isTable = true ↔ k = .table := by
  rcases kind_eq_ok h with ⟨_, hsuggested⟩ | hmis
  · unfold suggestedKind at hsuggested
    simp only [hv, hfit.isTable_stripUnits] at hsuggested
    by_cases htable : v.isTable = true
    · rw [if_pos htable] at hsuggested
      exact iff_of_true htable (Except.ok.inj hsuggested).symm
    · rw [if_neg htable] at hsuggested
      refine iff_of_false htable ?_
      rintro rfl
      split at hsuggested
      · cases hsuggested
      · split at hsuggested <;> cases hsuggested
      · cases hsuggested
  · unfold mismatch? at hmis
    simp only [hv] at hmis
    cases k with
    | stock =>
      have hstock : v.isStockBody = true := by simpa using hmis
      refine iff_of_false (fun htable => ?_) nofun
      rw [not_isStockBody_of_isTable htable] at hstock
      cases hstock
    | table => exact iff_of_true (by simpa using hmis) rfl
    | const =>
      have hconst : v.constant?.isSome = true := by cases hx : v.constant? <;> simp_all
      exact iff_of_false (Bool.eq_false_iff.mp (Expr.not_isTable_of_constant? hconst)) nofun
    | aux | flow =>
      refine iff_of_false (fun htable => ?_) nofun
      simp only [htable, ↓reduceIte, reduceCtorEq] at hmis

theorem isSome_constant?_of_kind (hv : s.value = some v) (h : s.kind = .ok .const) :
    v.constant?.isSome = true := by
  rcases kind_eq_ok h with ⟨_, hsuggested⟩ | hmis
  · unfold suggestedKind at hsuggested
    simp only [hv] at hsuggested
    split at hsuggested
    · cases hsuggested
    · split at hsuggested
      · cases hsuggested
      · split at hsuggested <;> cases hsuggested
      · cases hsuggested
  · unfold mismatch? at hmis
    simp only [hv] at hmis
    cases hx : v.constant? with
    | none => simp [hx] at hmis
    | some x => rfl

/-- **Every variable of a text that has a kind has a value of that form.** -/
theorem matches_of_kind (hfit : ∀ v, s.value = some v → v.Fits .annotated) (h : s.kind = .ok k) :
    s.Matches k := by
  cases hv : s.value with
  | none =>
    refine .bare hv ?_
    rintro rfl
    rcases kind_eq_ok h with ⟨_, hsuggested⟩ | hmis
    · unfold suggestedKind at hsuggested
      simp only [hv, Except.ok.injEq, reduceCtorEq] at hsuggested
    · unfold mismatch? at hmis
      simp only [hv, ↓reduceIte, reduceCtorEq] at hmis
  | some v =>
    have htable := isTable_iff_kind (hfit v hv) hv h
    have hstock := isStockBody_iff_kind hv h
    cases k with
    | stock =>
      obtain ⟨type, es, span, hbody, htype⟩ := Expr.eq_of_isStockBody (hstock.mpr rfl)
      exact .stock hv hbody htype
    | table =>
      rcases (hfit v hv).eq_of_isTable (htable.mpr rfl) with ⟨ps, span, he⟩ | ⟨ps, _, i, span, he⟩
      · exact .table hv he
      · exact .lookup hv he
    | const =>
      obtain ⟨x, hx⟩ := Option.isSome_iff_exists.mp (isSome_constant?_of_kind hv h)
      exact .const hv hx
    | aux =>
      exact .computed hv (Or.inl rfl) (Bool.eq_false_iff.mpr fun he => nomatch htable.mp he)
        (Bool.eq_false_iff.mpr fun he => nomatch hstock.mp he)
    | flow =>
      exact .computed hv (Or.inr rfl) (Bool.eq_false_iff.mpr fun he => nomatch htable.mp he)
        (Bool.eq_false_iff.mpr fun he => nomatch hstock.mp he)

end Stmt

end StockFlow
