import StockFlow.Equation.Lowering
import StockFlow.Proofs.Answer
import StockFlow.Proofs.Equation.Table
import StockFlow.Proofs.Model.Meaning
import StockFlow.Proofs.Model.References

/-!
# Formulas mean what their expressions mean

* `Expr.LowersTo` — a formula that reads what its expression refers to and has the same value
* `Expr.lowersTo_of_formula` — the formula of an expression is one
* `Expr.givenTable?_of_tablePoints` — the points of a table are those that are given
-/

namespace StockFlow

namespace Expr

variable {names : Names}

/-- What a formula of an expression may read: names that the expression refers to and that have a
value. -/
def MayRead (names : Names) (refs : List (String × Span)) (n : String) : Prop :=
  n ∈ refs.map Prod.fst ∧ n ≠ "dt" ∧ (n = "time" ∨ names.isBareTable n = false)

theorem MayRead.mono {refs refs' : List (String × Span)} {n : String} (h : MayRead names refs n)
    (hsub : refs ⊆ refs') : MayRead names refs' n :=
  ⟨List.map_subset _ hsub h.1, h.2⟩

/-- A formula that asks for no default, reads only what it may and looks up tables. -/
structure Admissible (names : Names) (refs : List (String × Span)) (f : Formula Float) : Prop where
  asked : f.asked = []
  vars : ∀ n ∈ f.vars, MayRead names refs n
  tables : ∀ n ∈ f.tables, names.isTable n = true

theorem Admissible.mono {refs refs' : List (String × Span)} {f : Formula Float}
    (h : Admissible names refs f) (hsub : refs ⊆ refs') : Admissible names refs' f :=
  ⟨h.asked, fun n hn => (h.vars n hn).mono hsub, h.tables⟩

theorem Admissible.binary {op : BinaryOp} {refs : List (String × Span)} {f g : Formula Float}
    (hf : Admissible names refs f) (hg : Admissible names refs g) :
    Admissible names refs (.binary op f g) := by
  refine ⟨?_, ?_, ?_⟩
  · rw [Formula.asked, hf.asked, hg.asked, List.append_nil]
  · intro n hn
    exact (List.mem_append.mp hn).elim (hf.vars n) (hg.vars n)
  · intro n hn
    exact (List.mem_append.mp hn).elim (hf.tables n) (hg.tables n)

/-- A formula in the place of an expression, with the value of the expression in every setting. -/
structure LowersTo (names : Names) (e : Expr) (f : Formula Float) : Prop where
  admissible : Admissible names e.references f
  value : ∀ w, f.value? w = e.value? w

/-- The same for lists of expressions. -/
structure LowerTo (names : Names) (es : List Expr) (fs : List (Formula Float)) : Prop where
  admissible : ∀ f ∈ fs, Admissible names (referencesAll es) f
  value : ∀ w, fs.mapM (Formula.value? w) = values? w es

theorem lowersTo_name {name : String} {at_ : Span} {f : Formula Float}
    (h : nameFormula names (.var name at_) name = .ok f) : LowersTo names (.var name at_) f := by
  unfold nameFormula at h
  by_cases hdt : name = "dt"
  · rw [if_pos hdt] at h
    cases h
    exact ⟨⟨rfl, nofun, nofun⟩, fun w => by rw [value?, if_pos hdt]; rfl⟩
  · rw [if_neg hdt] at h
    have hvar : (name = "time" ∨ names.isBareTable name = false) →
        LowersTo names (.var name at_) (.var name) := by
      intro hn
      refine ⟨⟨rfl, ?_, nofun⟩, fun w => by rw [value?, if_neg hdt]; rfl⟩
      intro n hn'
      rw [List.mem_singleton.mp hn']
      exact ⟨by simp [Expr.references], hdt, hn⟩
    by_cases htime : name = "time"
    · rw [if_pos htime] at h
      cases h
      exact hvar (Or.inl htime)
    · rw [if_neg htime] at h
      cases hbare : names.isBareTable name with
      | true => rw [hbare] at h; cases h
      | false =>
        rw [hbare] at h
        cases h
        exact hvar (Or.inr hbare)

theorem lowersTo_table {t i : Expr} {at_ : Span} {name : String} {f : Formula Float}
    (ht : t.tableName? names = some name) (hi : LowersTo names i f) :
    LowersTo names (.index t i at_) (.lookup name f) := by
  unfold tableName? at ht
  cases hstrip : t.stripUnits with
  | var n _ =>
    simp only [hstrip] at ht
    cases htable : names.isTable n with
    | false => simp [htable] at ht
    | true =>
      simp only [htable, ↓reduceIte, Option.some.injEq] at ht
      subst ht
      have hsub : i.references ⊆ (Expr.index t i at_).references := by
        rw [references]
        exact List.subset_append_right _ _
      have hi' := hi.admissible.mono hsub
      refine ⟨⟨hi'.asked, hi'.vars, ?_⟩, ?_⟩
      · intro m hm
        rcases List.mem_cons.mp hm with rfl | hm
        · exact htable
        · exact hi'.tables m hm
      · intro w
        rw [Formula.value?, value?, hi.value, tableOf?, hstrip]
        cases i.value? w with
        | none => rfl
        | some x => cases hw : w.table n <;> simp [hw]
  | _ => simp [hstrip] at ht

/-- The formula of a call has the value of the call. -/
theorem value?_ofBuiltin {function : String} {args : List Expr} {fs : List (Formula Float)}
    {w : Setting Float} (hargs : fs.mapM (Formula.value? w) = values? w args)
    {c : Builtin (Formula Float)} (h : Builtin.ofName? function fs = some c) {at_ : Span} :
    (Formula.ofBuiltin c).value? w = (Expr.call function args at_).value? w := by
  -- a call takes as many arguments as its function, so the number of formulas decides
  rw [value?, ← hargs]
  match fs with
  | [] =>
    by_cases hpi : function = Builtin.piName
    · simp only [Builtin.ofName?, if_pos hpi, Option.some.injEq] at h
      subst h
      simp [Formula.ofBuiltin, Formula.value?, Builtin.ofName?, hpi, Builtin.value]
    · simp [Builtin.ofName?, hpi] at h
  | [f] =>
    obtain ⟨g, hg, rfl⟩ := Option.map_eq_some_iff.mp h
    cases hf : f.value? w <;>
      simp [Formula.ofBuiltin, Formula.value?, Builtin.ofName?, hg, hf, Builtin.value]
  | [f, f'] =>
    obtain ⟨g, hg, rfl⟩ := Option.map_eq_some_iff.mp h
    cases hf : f.value? w <;> cases hf' : f'.value? w <;>
      simp [Formula.ofBuiltin, Formula.value?, Builtin.ofName?, hg, hf, hf', Builtin.value]
  | _ :: _ :: _ :: _ => cases h

/-- What a call reads, its arguments read. -/
theorem mem_of_ofBuiltin {β : Type} {part : Formula Float → List β} {function : String}
    {fs : List (Formula Float)} {c : Builtin (Formula Float)}
    (h : Builtin.ofName? function fs = some c) {n : β}
    (hpi : part .pi = []) (hone : ∀ g x, part (.apply1 g x) = part x)
    (htwo : ∀ g x y, part (.apply2 g x y) = part x ++ part y)
    (hn : n ∈ part (.ofBuiltin c)) : ∃ f ∈ fs, n ∈ part f := by
  match fs with
  | [] =>
    simp only [Builtin.ofName?, Option.ite_none_right_eq_some, Option.some.injEq] at h
    rw [← h.2, Formula.ofBuiltin, hpi] at hn
    cases hn
  | [f] =>
    obtain ⟨g, _, rfl⟩ := Option.map_eq_some_iff.mp h
    rw [Formula.ofBuiltin, hone] at hn
    exact ⟨f, List.mem_cons_self .., hn⟩
  | [f, f'] =>
    obtain ⟨g, _, rfl⟩ := Option.map_eq_some_iff.mp h
    rw [Formula.ofBuiltin, htwo] at hn
    rcases List.mem_append.mp hn with hn | hn
    · exact ⟨f, by simp, hn⟩
    · exact ⟨f', by simp, hn⟩
  | _ :: _ :: _ :: _ => cases h

theorem lowersTo_call {function : String} {args : List Expr} {at_ : Span}
    {fs : List (Formula Float)} (hargs : LowerTo names args fs) {c : Builtin (Formula Float)}
    (h : Builtin.ofName? function fs = some c) :
    LowersTo names (.call function args at_) (.ofBuiltin c) := by
  have hadm : ∀ f ∈ fs, Admissible names (Expr.call function args at_).references f := by
    intro f hf
    rw [references]
    exact hargs.admissible f hf
  refine ⟨⟨List.eq_nil_iff_forall_not_mem.mpr ?_, ?_, ?_⟩,
    fun w => value?_ofBuiltin (hargs.value w) h⟩
  · intro n hn
    obtain ⟨f, hf, hn⟩ := mem_of_ofBuiltin h rfl (fun _ _ => rfl) (fun _ _ _ => rfl) hn
    rw [(hadm f hf).asked] at hn
    cases hn
  · intro n hn
    obtain ⟨f, hf, hn⟩ := mem_of_ofBuiltin h rfl (fun _ _ => rfl) (fun _ _ _ => rfl) hn
    exact (hadm f hf).vars n hn
  · intro n hn
    obtain ⟨f, hf, hn⟩ := mem_of_ofBuiltin h rfl (fun _ _ => rfl) (fun _ _ _ => rfl) hn
    exact (hadm f hf).tables n hn

theorem lowersTo_binary {op : BinaryOp} {l r : Expr} {at_ : Span} {f g : Formula Float}
    (hl : LowersTo names l f) (hr : LowersTo names r g) :
    LowersTo names (.binary op l r at_) (.binary op f g) := by
  constructor
  · rw [references]
    exact (hl.admissible.mono (List.subset_append_left _ _)).binary
      (hr.admissible.mono (List.subset_append_right _ _))
  · intro w
    rw [Formula.value?, value?, hl.value, hr.value]
    cases l.value? w <;> cases r.value? w <;> rfl

mutual

/-- **The formula of an expression means what the expression means.** -/
theorem lowersTo_of_formula (e : Expr) {f : Formula Float} (h : e.formula names = .ok f) :
    LowersTo names e f := by
  match e with
  | .number numeral _ =>
    rw [formula] at h
    cases h
    exact ⟨⟨rfl, nofun, nofun⟩, fun w => by rw [value?]; rfl⟩
  | .var name at_ =>
    rw [formula] at h
    exact lowersTo_name h
  | .paren x _ =>
    rw [formula] at h
    have hx := lowersTo_of_formula x h
    exact ⟨by rw [references]; exact hx.admissible, fun w => by rw [value?, hx.value]⟩
  | .units x _ _ =>
    rw [formula] at h
    have hx := lowersTo_of_formula x h
    refine ⟨hx.admissible.mono ?_, fun w => by rw [value?, hx.value]⟩
    rw [references]
    exact List.subset_append_left _ _
  | .negate x _ =>
    rw [formula] at h
    obtain ⟨g, hg, rfl⟩ := map_eq_ok.mp h
    have hx := lowersTo_of_formula x hg
    have hadm := hx.admissible
    refine ⟨by rw [references]; exact ⟨hadm.asked, hadm.vars, hadm.tables⟩, ?_⟩
    intro w
    rw [Formula.value?, value?, hx.value]
    cases x.value? w <;> rfl
  | .binary op l r _ =>
    rw [formula] at h
    obtain ⟨f, hf, h⟩ := bind_eq_ok.mp h
    obtain ⟨g, hg, h⟩ := bind_eq_ok.mp h
    cases h
    exact lowersTo_binary (lowersTo_of_formula l hf) (lowersTo_of_formula r hg)
  | .index t i _ =>
    rw [formula] at h
    cases ht : t.tableName? names with
    | none => rw [ht] at h; cases h
    | some name =>
      rw [ht] at h
      obtain ⟨f, hf, rfl⟩ := map_eq_ok.mp h
      exact lowersTo_table ht (lowersTo_of_formula i hf)
  | .call function args at_ =>
    rw [formula] at h
    obtain ⟨_, _, h⟩ := bind_eq_ok.mp h
    obtain ⟨fs, hfs, h⟩ := bind_eq_ok.mp h
    have hargs := lowerTo_of_formulas args hfs
    cases hc : Builtin.ofName? function fs with
    | none => rw [hc] at h; cases h
    | some c =>
      rw [hc] at h
      cases h
      exact lowersTo_call hargs hc
  | .literal _ _ | .composite _ _ _ | .keyed _ _ _ | .pair _ _ _ | .table _ _ =>
    rw [formula] at h
    cases h

theorem lowerTo_of_formulas (es : List Expr) {fs : List (Formula Float)}
    (h : formulas names es = .ok fs) : LowerTo names es fs := by
  match es with
  | [] =>
    rw [formulas] at h
    cases h
    exact ⟨nofun, fun w => by rw [values?]; rfl⟩
  | e :: es =>
    rw [formulas] at h
    obtain ⟨f, hf, h⟩ := bind_eq_ok.mp h
    obtain ⟨fs', hfs, h⟩ := bind_eq_ok.mp h
    cases h
    have hfirst := lowersTo_of_formula e hf
    have hrest := lowerTo_of_formulas es hfs
    refine ⟨List.forall_mem_cons.mpr ⟨?_, ?_⟩, ?_⟩
    · rw [referencesAll]
      exact hfirst.admissible.mono (List.subset_append_left _ _)
    · intro g hg
      rw [referencesAll]
      exact (hrest.admissible g hg).mono (List.subset_append_right _ _)
    · intro w
      rw [List.mapM_cons, hfirst.value, hrest.value, values?]

end

/-! ## Tables -/

theorem coordinates?_of_point {e : Expr} {p : Float × Float} (h : e.point = .ok p) :
    e.coordinates? = some p := by
  cases e with
  | pair x y _ =>
    unfold point at h
    cases hx : x.constant? <;> cases hy : y.constant? <;> simp only [hx, hy, reduceCtorEq] at h
    cases h
    simp [coordinates?, hx, hy]
  | _ => cases h

theorem mapM_coordinates? {es : List Expr} {ps : List (Float × Float)}
    (h : es.mapM point = .ok ps) : es.mapM coordinates? = some ps := by
  have hall := mapM_eq_ok.mp h
  clear h
  induction hall with
  | nil => rfl
  | cons hp _ ih =>
    rw [List.mapM_cons, coordinates?_of_point hp, ih]
    rfl

/-- The table through some points, before anything is checked. -/
def tableThrough (points : List (Float × Float)) : Table Float :=
  ⟨(points.map Prod.fst).toArray, (points.map Prod.snd).toArray⟩

/-- **The points of a table are those that are given,** and what has points is no name. -/
theorem givenTable?_of_tablePoints (e : Expr) {points : List (Float × Float)}
    (h : e.tablePoints = .ok points) :
    e.givenTable? = some (tableThrough points) ∧ ∀ n at_, e.stripUnits ≠ .var n at_ := by
  have hgiven : ∀ {es : List Expr}, es.mapM point = .ok points → ∀ at_ : Span,
      (Expr.table es at_).givenTable? = some (tableThrough points) := by
    intro es hes at_
    rw [givenTable?, mapM_coordinates? hes]
    rfl
  -- units and indices before which a table stands are passed over on both sides
  induction e using tablePoints.induct with
  | case1 es at_ => exact ⟨hgiven h at_, nofun⟩
  | case2 es at_ _ _ => exact ⟨hgiven h at_, nofun⟩
  | case3 t _ _ ih => exact ⟨(ih h).1, nofun⟩
  | case4 t _ _ _ _ ih => exact ⟨(ih h).1, nofun⟩
  | case5 e h₁ h₂ h₃ h₄ =>
    rw [tablePoints] at h
    · cases h
    · exact h₁
    · exact h₂
    · exact h₃
    · exact h₄

theorem tableThrough_of_ofPoints {points : List (Float × Float)} {t : Table Float}
    (h : Table.ofPoints points = .ok t) : t = tableThrough points :=
  (Table.ofPoints_eq_ok.mp h).2.2

theorem givenTable?_stripUnits (e : Expr) : e.stripUnits.givenTable? = e.givenTable? := by
  cases e with
  | units x _ _ => rw [stripUnits, givenTable?]
  | _ => rfl

/-- A table that is looked up is the one that stands before its index. -/
theorem tableOf?_of_tablePoints {e : Expr} {points : List (Float × Float)}
    (h : e.tablePoints = .ok points) (w : Setting Float) :
    e.tableOf? w = some (tableThrough points) := by
  obtain ⟨hgiven, hname⟩ := givenTable?_of_tablePoints e h
  rw [← hgiven, ← givenTable?_stripUnits, tableOf?]
  cases hstrip : e.stripUnits with
  | var n at_ => exact absurd hstrip (hname n at_)
  | _ => rfl

end Expr

end StockFlow
