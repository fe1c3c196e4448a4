import StockFlow.Equation.Synthesis
import StockFlow.Proofs.Equation.Lowering

/-!
# Stocks as their bodies say

* `StockBody.lookup_elements` — the entries of a body that is accepted are those it gives
* `StockBody.start_ok` — what a stock starts with is what its body says
* `StockBody.netFlow_ok` — the net flow of a stock is the one that its body gives
-/

namespace StockFlow.StockBody

variable {names : Names} {v : Expr} {body : StockBody}

/-! ## Entries -/

theorem name_of_ofName? {text : String} {key : StockKey} (h : StockKey.ofName? text = some key) :
    key.name = text := by
  simpa using List.find?_some h

theorem name_injective {k k' : StockKey} (h : k.name = k'.name) : k = k' := by
  revert h
  cases k <;> cases k' <;> decide

theorem add_eq_ok {entries : StockBody} {element : Expr} (h : add entries element = .ok body) :
    ∃ k value at_, element = .keyed (StockKey.name k) value at_ ∧ entries.lookup k = none ∧
      body = (k, value) :: entries := by
  cases element with
  | keyed name value at_ =>
    unfold add at h
    cases hk : StockKey.ofName? name with
    | none => simp only [hk, reduceCtorEq] at h
    | some k =>
      simp only [hk] at h
      cases hold : entries.lookup k with
      | some e => simp only [hold, Option.isSome_some, ↓reduceIte, reduceCtorEq] at h
      | none =>
        simp only [hold, Option.isSome_none, Bool.false_eq_true, ↓reduceIte] at h
        cases h
        exact ⟨k, value, at_, by rw [name_of_ofName? hk], hold, rfl⟩
  | _ => cases h

/-- What adding elements to entries leaves under a key. -/
theorem lookup_foldlM_add {elements : List Expr} {entries : StockBody}
    (h : elements.foldlM add entries = .ok body) (key : StockKey) :
    body.lookup key =
      (entries.lookup key).or (elements.findSome? (Expr.underKey? key.name)) := by
  induction elements generalizing entries with
  | nil =>
    cases h
    simp
  | cons e es ih =>
    rw [List.foldlM_cons] at h
    obtain ⟨next, hnext, h⟩ := bind_eq_ok.mp h
    obtain ⟨k, value, at_, rfl, hold, rfl⟩ := add_eq_ok hnext
    -- a key is given once, so it does not matter that later entries stand in front
    rw [ih h, List.lookup_cons, List.findSome?_cons, Expr.underKey?]
    by_cases hk : key = k
    · subst hk
      simp [hold]
    · have hname : k.name ≠ key.name := fun he => hk (name_injective he).symm
      rw [beq_false_of_ne hk, if_neg hname]

/-- **The entries of a body that is accepted are those it gives.** -/
theorem lookup_elements (h : ofExpr v = .ok body) (key : StockKey) :
    body.lookup key = v.entry? key.name := by
  unfold ofExpr at h
  rw [Expr.entry?]
  cases hv : v.stripUnits with
  | composite type elements at_ =>
    simp only [hv] at h ⊢
    by_cases htype : (type = none || type = some "stock") = true
    · rw [if_pos htype] at h
      rw [lookup_foldlM_add h, List.lookup_nil, Option.none_or]
    · rw [if_neg htype] at h
      cases h
  | _ => simp only [hv, reduceCtorEq] at h

theorem references_subset_of_underKey? {key : String} {e e' : Expr}
    (h : e.underKey? key = some e') : e'.references ⊆ e.references := by
  cases e with
  | keyed k value at_ =>
    simp only [Expr.underKey?, Option.ite_none_right_eq_some, Option.some.injEq] at h
    rw [← h.2, Expr.references.eq_def (.keyed k value at_)]
    exact List.Subset.refl _
  | _ => cases h

theorem references_subset_referencesAll {es : List Expr} {e : Expr} (he : e ∈ es) :
    e.references ⊆ Expr.referencesAll es := by
  induction es with
  | nil => cases he
  | cons e' es ih =>
    rw [Expr.referencesAll]
    rcases List.mem_cons.mp he with rfl | hlater
    · exact List.subset_append_left _ _
    · exact List.Subset.trans (ih hlater) (List.subset_append_right _ _)

theorem references_stripUnits (e : Expr) : e.stripUnits.references ⊆ e.references := by
  cases e with
  | units x note at_ =>
    rw [Expr.stripUnits, Expr.references.eq_def (.units x note at_)]
    exact List.subset_append_left _ _
  | _ => exact List.Subset.refl _

/-- What an entry refers to, its body refers to. -/
theorem references_subset_of_mem {key : String} {e : Expr} (h : v.entry? key = some e) :
    e.references ⊆ v.references := by
  rw [Expr.entry?] at h
  cases hv : v.stripUnits with
  | composite type elements at_ =>
    simp only [hv] at h
    obtain ⟨e', he', hkey⟩ := List.exists_of_findSome?_eq_some h
    have hbody := references_stripUnits v
    rw [hv, Expr.references.eq_def (.composite type elements at_)] at hbody
    have helement := List.Subset.trans (references_subset_of_underKey? hkey)
      (references_subset_referencesAll he')
    exact List.Subset.trans helement hbody
  | _ => simp only [hv, reduceCtorEq] at h

/-! ## Starting values -/

/-- The formula of what a starting value is taken from. -/
def originFormula : Expr.Origin → Formula Float
  | .value x => .const x
  | .step => .dt
  | .sameAs n => .var n

theorem isStockBody_of_ofExpr (h : ofExpr v = .ok body) : v.isStockBody = true := by
  unfold ofExpr at h
  unfold Expr.isStockBody
  cases hv : v.stripUnits with
  | composite type elements at_ =>
    simp only [hv] at h ⊢
    cases type with
    | none => rfl
    | some type =>
      by_cases htype : type = "stock"
      · exact decide_eq_true htype
      · rw [if_neg (by simpa using htype)] at h
        cases h
  | _ => simp only [hv, reduceCtorEq] at h

theorem startFormula_ok {e : Expr} {f : Formula Float} (h : e.startFormula names = .ok f) :
    ∃ o, e.entryOrigin? = some o ∧ f = originFormula o ∧
      ∀ n, o = .sameAs n → n = "time" ∨ n ∈ names.started := by
  unfold Expr.startFormula at h
  unfold Expr.entryOrigin?
  cases hx : e.constant? with
  | some x =>
    rw [hx] at h
    cases h
    exact ⟨.value x, rfl, rfl, nofun⟩
  | none =>
    simp only [hx] at h
    cases hvar : e.stripUnits with
    | var n at_ =>
      simp only [hvar] at h ⊢
      by_cases hdt : n = "dt"
      · rw [if_pos hdt] at h
        cases h
        exact ⟨.step, if_pos hdt, rfl, nofun⟩
      · rw [if_neg hdt] at h
        by_cases hn : (n = "time" || n ∈ names.started) = true
        · rw [if_pos hn] at h
          cases h
          refine ⟨.sameAs n, if_neg hdt, rfl, ?_⟩
          intro m hm
          cases hm
          simpa using hn
        · rw [if_neg hn] at h
          cases h
    | _ => simp only [hvar, reduceCtorEq] at h

/-- **What a stock starts with is what its body says.** -/
theorem start_ok (hbody : ofExpr v = .ok body) {f : Formula Float}
    (h : body.start names = .ok f) : ∃ o, v.origin? = some o ∧ f = originFormula o ∧
      ∀ n, o = .sameAs n → n = "time" ∨ n ∈ names.started := by
  unfold start at h
  rw [lookup_elements hbody .initial] at h
  rw [show StockKey.initial.name = "initial" from rfl] at h
  rw [Expr.origin?, if_pos (isStockBody_of_ofExpr hbody)]
  cases he : v.entry? "initial" with
  | none =>
    rw [he] at h
    cases h
    exact ⟨.value 0, rfl, rfl, fun _ hn => by cases hn⟩
  | some e =>
    rw [he] at h
    exact startFormula_ok h

/-! ## Net flows -/

/-- A formula that is there exactly if an expression is, and then stands for it. -/
inductive LowersTo? (names : Names) : Option Expr → Option (Formula Float) → Prop
  | none : LowersTo? names none none
  | some (e : Expr) (f : Formula Float) (h : e.LowersTo names f) : LowersTo? names (some e) (some f)

theorem flow_ok (hbody : ofExpr v = .ok body) {key : StockKey} {f? : Option (Formula Float)}
    (h : body.flow names key = .ok f?) :
    LowersTo? names (v.entry? key.name) f? ∧
      ∀ f ∈ f?, Expr.Admissible names v.references f := by
  unfold flow at h
  rw [lookup_elements hbody key] at h
  cases he : v.entry? key.name with
  | none =>
    rw [he] at h
    cases h
    exact ⟨.none, nofun⟩
  | some e =>
    rw [he] at h
    obtain ⟨f, hf, rfl⟩ := map_eq_ok.mp h
    have hlower := Expr.lowersTo_of_formula e hf
    refine ⟨.some e f hlower, ?_⟩
    intro g hg
    cases hg
    exact hlower.admissible.mono (references_subset_of_mem he)

theorem admissible_plus {refs : List (String × Span)} {f? g? : Option (Formula Float)}
    (hf : ∀ f ∈ f?, Expr.Admissible names refs f) (hg : ∀ f ∈ g?, Expr.Admissible names refs f) :
    ∀ f ∈ plus f? g?, Expr.Admissible names refs f := by
  intro f hmem
  cases f? with
  | none => cases g? <;> exact hg f hmem
  | some a =>
    cases g? with
    | none => exact hf f hmem
    | some b =>
      cases hmem
      exact (hf a rfl).binary (hg b rfl)

theorem admissible_net {refs : List (String × Span)} {f? g? : Option (Formula Float)}
    (hf : ∀ f ∈ f?, Expr.Admissible names refs f) (hg : ∀ f ∈ g?, Expr.Admissible names refs f) :
    Expr.Admissible names refs (net f? g?) := by
  cases f? with
  | none =>
    cases g? with
    | none => exact ⟨rfl, nofun, nofun⟩
    | some b => exact ⟨(hg b rfl).asked, (hg b rfl).vars, (hg b rfl).tables⟩
  | some a =>
    cases g? with
    | none => exact hf a rfl
    | some b => exact (hf a rfl).binary (hg b rfl)

/-- **The net flow of a stock is the one that its body gives.** -/
theorem netFlow_ok (hbody : ofExpr v = .ok body) {f : Formula Float}
    (h : body.netFlow names = .ok f) :
    Expr.Admissible names v.references f ∧ ∀ w, f.value? w = v.net? w := by
  obtain ⟨both, hboth, h⟩ := bind_eq_ok.mp h
  obtain ⟨gain, hgain, h⟩ := bind_eq_ok.mp h
  obtain ⟨loss, hloss, h⟩ := bind_eq_ok.mp h
  cases h
  obtain ⟨hb, hboth⟩ := flow_ok hbody hboth
  obtain ⟨hg, hgain⟩ := flow_ok hbody hgain
  obtain ⟨hl, hloss⟩ := flow_ok hbody hloss
  refine ⟨admissible_net (admissible_plus hboth hgain) hloss, ?_⟩
  intro w
  simp only [StockKey.name] at hb hg hl
  unfold Expr.net?
  generalize v.entry? "biflow" = b?, v.entry? "inflow" = g?, v.entry? "outflow" = l? at hb hg hl ⊢
  -- one case for each choice of the flows that a body gives
  have hadd : ∀ x y : Float, Scalar.operate .add x y = x + y := fun _ _ => rfl
  have hsub : ∀ x y : Float, Scalar.operate .sub x y = x - y := fun _ _ => rfl
  cases hb with
  | none =>
    cases hg with
    | none =>
      cases hl with
      | none => rfl
      | some l _ hl =>
        simp only [plus, net, Formula.value?, hl.value]
        cases l.value? w <;> rfl
    | some g _ hg =>
      cases hl with
      | none => exact hg.value w
      | some l _ hl =>
        simp only [plus, net, Formula.value?, hg.value, hl.value, hsub]
        cases g.value? w <;> cases l.value? w <;> simp
  | some b _ hb =>
    cases hg with
    | none =>
      cases hl with
      | none => exact hb.value w
      | some l _ hl =>
        simp only [plus, net, Formula.value?, hb.value, hl.value, hsub]
        cases b.value? w <;> cases l.value? w <;> simp
    | some g _ hg =>
      cases hl with
      | none =>
        simp only [plus, net, Formula.value?, hb.value, hg.value, hadd]
        cases b.value? w <;> cases g.value? w <;> simp
      | some l _ hl =>
        simp only [plus, net, Formula.value?, hb.value, hg.value, hl.value, hadd, hsub]
        cases b.value? w <;> cases g.value? w <;> cases l.value? w <;> simp

end StockFlow.StockBody
