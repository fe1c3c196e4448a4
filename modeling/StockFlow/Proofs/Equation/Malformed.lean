import StockFlow.Proofs.Equation.Compiled
import StockFlow.Proofs.Model.Shape

/-!
# Malformed values

A value is malformed where its form has no meaning whatever its names stand for. The readers, the
kinds and the rules each look at the form of a value; what the first two let through is not
malformed to the last.

* `Avoids` — a computation that may fail, but not with a fault of a certain sort
* `Misuse.isMalformed`, `ModelFault.isMalformed` — the faults that blame the form of a value
* `Expr.Fits.formula`, `Stmt.Matches.contribution` — they are not met where a value has the form
  that its kind asks for
* `Analysis.compile_avoids` — so they are not met when a model is made ready
* `Definition.timespec_avoids` — nor when its time specification is read
-/

namespace StockFlow

/-! ## Faults that are not met -/

section

variable {ε ε' α β : Type} {bad : ε → Bool} {x : Except ε α}

/-- **A computation does not end with a fault of a certain sort.** -/
def Avoids (bad : ε → Bool) (x : Except ε α) : Prop := ∀ fault, x = .error fault → bad fault = false

theorem avoids_ok (bad : ε → Bool) (a : α) : Avoids bad (Except.ok a) := nofun

theorem avoids_error {fault : ε} (h : bad fault = false) :
    Avoids bad (Except.error fault : Except ε α) := by
  intro fault' he
  cases he
  exact h

theorem Avoids.bind {f : α → Except ε β} (hx : Avoids bad x)
    (hf : ∀ a, x = .ok a → Avoids bad (f a)) : Avoids bad (x >>= f) := by
  cases x with
  | error fault => exact avoids_error (hx fault rfl)
  | ok a => exact hf a rfl

theorem Avoids.map (hx : Avoids bad x) (f : α → β) : Avoids bad (f <$> x) := by
  cases x with
  | error fault => exact avoids_error (hx fault rfl)
  | ok a => exact avoids_ok bad (f a)

theorem Avoids.mapError (bad : ε' → Bool) (f : ε → ε')
    (hx : Avoids (fun fault => bad (f fault)) x) : Avoids bad (x.mapError f) := by
  cases x with
  | error fault => exact avoids_error (hx fault rfl)
  | ok a => exact avoids_ok bad a

theorem avoids_mapM {f : α → Except ε β} {xs : List α} (h : ∀ x ∈ xs, Avoids bad (f x)) :
    Avoids bad (xs.mapM f) := by
  induction xs with
  | nil => exact avoids_ok bad []
  | cons x xs ih =>
    obtain ⟨hx, hxs⟩ := List.forall_mem_cons.mp h
    rw [List.mapM_cons]
    exact hx.bind fun y _ => (ih hxs).bind fun ys _ => avoids_ok bad (y :: ys)

theorem avoids_foldlM {f : β → α → Except ε β} {xs : List α} (h : ∀ x ∈ xs, ∀ b, Avoids bad (f b x))
    (b : β) : Avoids bad (xs.foldlM f b) := by
  induction xs generalizing b with
  | nil => exact avoids_ok bad b
  | cons x xs ih =>
    obtain ⟨hx, hxs⟩ := List.forall_mem_cons.mp h
    rw [List.foldlM_cons]
    exact (hx b).bind fun b' _ => ih hxs b'

end

/-! ## Faults that blame the form of a value -/

/-- An expression of this form has no meaning where it stands, whatever its names stand for. Values
of the other forms have their places, or are refused for what they name. -/
def Misuse.isMalformed : Misuse → Bool
  | call | stray | tableDefinition | tableElement | stockBody | notConstant => true
  | tableAsValue | indexOfNoTable | literalAsValue | compositeAsValue | nestedTable => false

/-- Whether a fault blames the form of the value of a variable. -/
def VariableFault.isMalformed : VariableFault → Bool
  | misused misuse _ => misuse.isMalformed
  | unexpectedElement _ => true
  | _ => false

/-- Whether a fault blames the form of the value of a variable of a model. -/
def ModelFault.isMalformed : ModelFault → Bool
  | atVariable _ _ fault => fault.isMalformed
  | _ => false

theorem Avoids.atVariable {α : Type} {x : Except VariableFault α} {model name : String}
    (hx : Avoids VariableFault.isMalformed x) :
    Avoids ModelFault.isMalformed (x.mapError (.atVariable model name)) :=
  Avoids.mapError ModelFault.isMalformed (.atVariable model name) hx

/-- Whether a fault blames the form of an element of a time specification. -/
def Timespec.Fault.isMalformed : Timespec.Fault → Bool
  | unexpectedElement _ => true
  | _ => false

/-! ## Formulas -/

/-- A call of a function with as many arguments as it takes is one. -/
theorem Builtin.isSome_ofName? {ε : Type} {function : String} {args : List ε}
    (h : arity? function = some args.length) : (ofName? function args).isSome = true := by
  unfold arity? at h
  match args with
  | [] =>
    by_cases hpi : function = piName
    · rw [ofName?, if_pos hpi]
      rfl
    · rw [if_neg hpi] at h
      split at h
      · cases h
      · split at h <;> cases h
  | [x] =>
    split at h
    · cases h
    · split at h
      · next hone => rwa [ofName?, Option.isSome_map]
      · split at h <;> cases h
  | [x, y] =>
    split at h
    · cases h
    · split at h
      · cases h
      · split at h
        · next htwo => rwa [ofName?, Option.isSome_map]
        · cases h
  | x :: y :: z :: rest =>
    split at h
    · cases h
    · split at h
      · cases h
      · split at h <;> cases h

namespace Expr

variable {l : Level} {e v : Expr} {names : Names}

theorem avoids_nameFormula (e : Expr) (name : String) :
    Avoids VariableFault.isMalformed (nameFormula names e name) := by
  unfold nameFormula
  split
  · exact avoids_ok _ _
  · split
    · exact avoids_ok _ _
    · split
      · exact avoids_error rfl
      · exact avoids_ok _ _

theorem arity?_of_checkArity {function : String} {given : Nat}
    (h : checkArity function given = .ok ()) : Builtin.arity? function = some given := by
  unfold checkArity at h
  split at h
  · cases h
  · next takes htakes =>
    split at h
    · next heq => rw [htakes, heq]
    · cases h

theorem avoids_checkArity (function : String) (given : Nat) :
    Avoids VariableFault.isMalformed (checkArity function given) := by
  unfold checkArity
  split
  · exact avoids_error rfl
  · split
    · exact avoids_ok _ _
    · exact avoids_error rfl

theorem formulas_eq_mapM (names : Names) (es : List Expr) :
    formulas names es = es.mapM fun e => e.formula names := by
  induction es with
  | nil => rw [formulas, List.mapM_nil]; rfl
  | cons e es ih => rw [formulas, List.mapM_cons, ih]

/-- **An expression that is read has a formula, or is refused for what it names.** -/
theorem Fits.formula (h : Fits l e) (hl : l ≠ .element ∧ l ≠ .point) (names : Names) :
    Avoids VariableFault.isMalformed (e.formula names) := by
  induction h with
  | units _ ih => rw [Expr.formula]; exact ih ⟨nofun, nofun⟩
  | bare _ ih | ofProduct _ ih | ofPower _ ih | ofNegation _ ih | ofLookup _ ih | ofValue _ ih =>
    exact ih ⟨nofun, nofun⟩
  | sum _ _ _ ihl ihr | product _ _ _ ihl ihr | power _ _ ihl ihr =>
    rw [Expr.formula]
    exact (ihl ⟨nofun, nofun⟩).bind fun _ _ => (ihr ⟨nofun, nofun⟩).bind fun _ _ => avoids_ok _ _
  | negate _ ih => rw [Expr.formula]; exact (ih ⟨nofun, nofun⟩).map _
  | index _ _ _ ihi =>
    rw [Expr.formula]
    split
    · exact (ihi ⟨nofun, nofun⟩).map _
    · exact avoids_error rfl
  | var => rw [Expr.formula]; exact avoids_nameFormula _ _
  | number => rw [Expr.formula]; exact avoids_ok _ _
  | literal | composite | table => rw [Expr.formula]; exact avoids_error rfl
  | paren _ ih => rw [Expr.formula]; exact ih ⟨nofun, nofun⟩
  | @call function args _ _ ih =>
    rw [Expr.formula]
    refine (avoids_checkArity _ _).bind fun _ harity => ?_
    rw [formulas_eq_mapM]
    refine (avoids_mapM fun a ha => ih a ha ⟨nofun, nofun⟩).bind fun fs hfs => ?_
    -- there are as many formulas as arguments, and the number of arguments was checked
    have hlength := (mapM_eq_ok.mp hfs).length_eq
    have hfits : Builtin.arity? function = some fs.length := hlength ▸ arity?_of_checkArity harity
    obtain ⟨c, hc⟩ := Option.isSome_iff_exists.mp (Builtin.isSome_ofName? hfits)
    rw [hc]
    exact avoids_ok _ _
  | keyed => exact absurd rfl hl.1
  | pair => exact absurd rfl hl.2

theorem avoids_startFormula (e : Expr) (names : Names) :
    Avoids VariableFault.isMalformed (e.startFormula names) := by
  unfold startFormula
  split
  · exact avoids_ok _ _
  · split
    · split
      · exact avoids_ok _ _
      · split
        · exact avoids_ok _ _
        · exact avoids_error rfl
    · exact avoids_error rfl

/-! ## Tables -/

theorem Fits.point (h : Fits .point e) : Avoids VariableFault.isMalformed e.point := by
  cases h with
  | pair =>
    unfold Expr.point
    simp only
    split
    · exact avoids_ok _ _
    · exact avoids_error rfl

theorem tablePoints_of_table {points : List Expr} {span : Span}
    (h : v.stripUnits = .table points span) : v.tablePoints = points.mapM point := by
  cases v with
  | table =>
    cases h
    rw [tablePoints]
  | units =>
    cases h
    rw [tablePoints]
  | _ => cases h

theorem tablePoints_of_index {t i : Expr} {span : Span} (h : v.stripUnits = .index t i span) :
    v.tablePoints = t.tablePoints := by
  cases v with
  | index =>
    cases h
    rw [tablePoints]
  | units =>
    cases h
    rw [tablePoints]
  | _ => cases h

/-! ## Bodies of stocks -/

theorem Fits.eq_keyed (h : Fits .element e) :
    ∃ key value span, e = .keyed key value span ∧ Fits .annotated value := by
  cases h with
  | keyed hvalue => exact ⟨_, _, _, rfl, hvalue⟩

theorem Fits.add (h : Fits .element e) (entries : StockBody) :
    Avoids VariableFault.isMalformed (StockBody.add entries e) := by
  obtain ⟨key, value, span, rfl, _⟩ := h.eq_keyed
  unfold StockBody.add
  simp only
  split
  · exact avoids_error rfl
  · split
    · exact avoids_error rfl
    · exact avoids_ok _ _

/-- What a structured value says under a key is a whole value. -/
theorem Fits.entry? {key : String} (h : Fits .annotated v) (he : v.entry? key = some e) :
    Fits .annotated e := by
  rw [Expr.entry?] at he
  have hstrip := h.stripUnits
  cases hv : v.stripUnits with
  | composite type elements span =>
    rw [hv] at hstrip
    simp only [hv] at he
    obtain ⟨element, hmem, hkey⟩ := List.exists_of_findSome?_eq_some he
    obtain ⟨key', value, span', rfl, hvalue⟩ := (hstrip.parts element hmem).eq_keyed
    simp only [underKey?, Option.ite_none_right_eq_some, Option.some.injEq] at hkey
    exact hkey.2 ▸ hvalue
  | _ => simp only [hv, reduceCtorEq] at he

end Expr

namespace StockBody

variable {v : Expr} {body : StockBody} {names : Names}

theorem avoids_start (names : Names) (body : StockBody) :
    Avoids VariableFault.isMalformed (body.start names) := by
  unfold start
  split
  · exact Expr.avoids_startFormula _ names
  · exact avoids_ok _ _

theorem avoids_flow (hfit : v.Fits .annotated) (hbody : ofExpr v = .ok body) (key : StockKey) :
    Avoids VariableFault.isMalformed (body.flow names key) := by
  unfold flow
  rw [lookup_elements hbody]
  split
  · next value hvalue => exact ((hfit.entry? hvalue).formula ⟨nofun, nofun⟩ names).map _
  · exact avoids_ok _ _

theorem avoids_netFlow (hfit : v.Fits .annotated) (hbody : ofExpr v = .ok body) :
    Avoids VariableFault.isMalformed (body.netFlow names) :=
  (avoids_flow hfit hbody _).bind fun _ _ => (avoids_flow hfit hbody _).bind fun _ _ =>
    (avoids_flow hfit hbody _).bind fun _ _ => avoids_ok _ _

end StockBody

/-! ## Contributions -/

namespace Stmt

variable {s : Stmt} {v : Expr} {k : VarKind} {names : Names} {model : String}

theorem avoids_stockContribution {type : Option String} {elements : List Expr} {span : Span}
    (hfit : v.Fits .annotated) (hbody : v.stripUnits = .composite type elements span)
    (htype : type = none ∨ type = some "stock") :
    Avoids VariableFault.isMalformed (s.stockContribution names v) := by
  have hstrip := hfit.stripUnits
  rw [hbody] at hstrip
  have hentries : Avoids VariableFault.isMalformed (StockBody.ofExpr v) := by
    unfold StockBody.ofExpr
    simp only [hbody]
    rw [if_pos (by simpa using htype)]
    exact avoids_foldlM (fun e he entries => (hstrip.parts e he).add entries) []
  exact hentries.bind fun body hof => (body.avoids_start names).bind fun _ _ =>
    (StockBody.avoids_netFlow hfit hof).bind fun _ _ => avoids_ok _ _

/-- A table has points that are pairs, and perhaps an index that is an expression. -/
theorem avoids_tableContribution (hpoints : Avoids VariableFault.isMalformed v.tablePoints)
    (hindex : ∀ i, tableIndex? v = some i → i.Fits .sum) :
    Avoids ModelFault.isMalformed (s.tableContribution names model v) := by
  unfold tableContribution
  refine hpoints.atVariable.bind fun points _ => ?_
  refine Avoids.bind (Avoids.mapError _ _ fun fault _ => rfl) fun t _ => ?_
  cases hi : tableIndex? v with
  | none => exact avoids_ok _ _
  | some i =>
    have hformula := (hindex i hi).formula ⟨nofun, nofun⟩ names
    exact hformula.atVariable.bind fun _ _ => avoids_ok _ _

theorem avoids_flowContribution (hfit : v.Fits .annotated) :
    Avoids VariableFault.isMalformed (s.flowContribution names k v) := by
  unfold flowContribution
  split
  · exact avoids_ok _ _
  · exact (hfit.formula ⟨nofun, nofun⟩ names).bind fun _ _ => avoids_ok _ _

/-- **A value of the form that its kind asks for is not malformed to the rules.** -/
theorem Matches.contribution (h : s.Matches k) (hfit : ∀ v, s.value = some v → v.Fits .annotated) :
    Avoids ModelFault.isMalformed (s.contribution names model k) := by
  unfold Stmt.contribution
  cases h with
  | bare hv =>
    rw [hv]
    exact avoids_ok _ _
  | stock hv hbody htype =>
    simp only [hv]
    exact (avoids_stockContribution (hfit _ hv) hbody htype).atVariable
  | table hv htable =>
    have hstrip := (hfit _ hv).stripUnits
    rw [htable] at hstrip
    simp only [hv]
    refine avoids_tableContribution ?_ fun i hi => ?_
    · rw [Expr.tablePoints_of_table htable]
      exact avoids_mapM fun p hp => (hstrip.parts p hp).point
    · rw [tableIndex?, htable] at hi
      cases hi
  | lookup hv hindex =>
    have hstrip := (hfit _ hv).stripUnits
    rw [hindex] at hstrip
    obtain ⟨htable, hsum⟩ := hstrip.parts
    simp only [hv]
    refine avoids_tableContribution ?_ fun i hi => ?_
    · rw [Expr.tablePoints_of_index hindex, Expr.tablePoints_of_table rfl]
      exact avoids_mapM fun p hp => (htable.parts p hp).point
    · rw [tableIndex?, hindex] at hi
      cases hi
      exact hsum
  | const hv hx =>
    simp only [hv, constContribution, hx]
    exact avoids_ok _ _
  | computed hv hk =>
    rcases hk with rfl | rfl <;> simp only [hv] <;>
      exact (avoids_flowContribution (hfit _ hv)).atVariable

end Stmt

/-! ## Models -/

variable {d : Definition}

/-- **A model whose values are read and whose kinds are told has no malformed value.** -/
theorem Analysis.compile_avoids {a : Analysis} (ha : d.analyze = .ok a)
    (hfit : ∀ s ∈ d.varStmts, ∀ v, s.value = some v → v.Fits .annotated) :
    Avoids ModelFault.isMalformed a.compile := by
  obtain ⟨rfl, _, hscope, hkinds⟩ := Definition.analyze_eq_ok ha
  obtain ⟨hnames, _⟩ := Definition.namesInOrder_of_scope hscope
  have hordered : ∀ {a : Analysis} (list : RuleList) (rules : List (Rule Float)),
      Avoids ModelFault.isMalformed (a.ordered list rules) :=
    fun list rules => Avoids.mapError _ _ fun fault _ => rfl
  refine Avoids.bind (avoids_mapM ?_) fun found _ => (hordered _ _).bind fun _ _ =>
    (hordered _ _).bind fun _ _ => avoids_ok _ _
  rintro ⟨s, k⟩ hmem
  obtain ⟨hs, hkind⟩ := (mem_typed hkinds hnames).mp hmem
  have hmatch := Stmt.matches_of_kind (hfit s hs) hkind
  exact (hmatch.contribution (hfit s hs)).bind fun _ _ => avoids_ok _ _

/-! ## Time specifications -/

namespace Timespec

theorem avoids_add {element : Expr} (h : element.Fits .element) (entries : Entries) :
    Avoids Fault.isMalformed (entries.add element) := by
  obtain ⟨key, value, span, rfl, _⟩ := h.eq_keyed
  unfold Entries.add
  simp only
  split
  · exact avoids_error rfl
  · split
    · exact avoids_error rfl
    · split
      · exact avoids_ok _ _
      · exact avoids_error rfl

theorem avoids_required (entries : Entries) (key : Key) :
    Avoids Fault.isMalformed (entries.required key) := by
  unfold Entries.required
  split
  · exact avoids_ok _ _
  · exact avoids_error rfl

theorem avoids_check (spec : Timespec Float) : Avoids Fault.isMalformed spec.check := by
  unfold check fault?
  split
  · next fault hfault =>
    refine avoids_error ?_
    repeat' split at hfault
    all_goals cases hfault <;> rfl
  · exact avoids_ok _ _

end Timespec

/-- **The elements of a time specification that is read are entries.** -/
theorem Definition.timespec_avoids
    (hfit : ∀ s ∈ d.stmts, ∀ v, s.value = some v → v.Fits .annotated) :
    Avoids Timespec.Fault.isMalformed d.timespec := by
  unfold timespec
  split
  · exact avoids_ok _ _
  · next s hs =>
    split
    · exact avoids_error rfl
    · next v hv =>
      have hstrip := (hfit s (List.mem_of_find?_eq_some hs) v hv).stripUnits
      refine Avoids.map ?_ _
      unfold Timespec.ofValue
      split
      · next elements span hbody =>
        rw [hbody] at hstrip
        refine (avoids_foldlM (fun e he entries => Timespec.avoids_add (hstrip.parts e he) entries)
          []).bind fun entries _ => ?_
        exact (Timespec.avoids_required entries _).bind fun _ _ =>
          (Timespec.avoids_required entries _).bind fun _ _ =>
            (Timespec.avoids_required entries _).bind fun _ _ => Timespec.avoids_check _
      · exact avoids_error rfl

end StockFlow
