import StockFlow.Project
import StockFlow.Proofs.Engine.Life
import StockFlow.Proofs.Equation.Compiled

/-!
# Models of a text

* `Project.compiled_of_runnable` — a model of a text that can be simulated is the one of the first
  definition of its name, made ready to be computed
* `Project.sound_of_instantiateWith` — its simulations find all that they read
* `Project.growth` — a small text
-/

namespace StockFlow

/-! ## Results with warnings -/

namespace Noted

variable {α β : Type}

theorem andThen_eq_ok {n : Noted α} {next : α → Noted β} {b : β}
    (h : (n.andThen next).result = .ok b) : ∃ a, n.result = .ok a ∧ (next a).result = .ok b := by
  unfold andThen at h
  cases hn : n.result with
  | error e => simp only [hn, reduceCtorEq] at h
  | ok a =>
    simp only [hn] at h
    exact ⟨a, rfl, h⟩

theorem each_eq_ok {f : α → Noted β} {as : List α} {bs : List β}
    (h : (each f as).result = .ok bs) : List.Forall₂ (fun a b => (f a).result = .ok b) as bs := by
  induction as generalizing bs with
  | nil =>
    cases h
    exact .nil
  | cons a as ih =>
    obtain ⟨b, hb, h⟩ := andThen_eq_ok h
    obtain ⟨bs', hbs, h⟩ := andThen_eq_ok h
    cases h
    exact .cons hb (ih hbs)

end Noted

theorem compile_of_compiled {a : Analysis} {m : Model Float} (h : a.compiled.result = .ok m) :
    a.compile = .ok m := by
  unfold Analysis.compiled at h
  cases ha : a.compile with
  | error e => simp only [ha, reduceCtorEq] at h
  | ok m' =>
    simp only [ha] at h
    exact h

/-- A model has the name of its definition. -/
theorem name_of_compile {d : Definition} {a : Analysis} {m : Model Float} (ha : d.analyze = .ok a)
    (hm : a.compile = .ok m) : m.name = d.name := by
  obtain ⟨rfl, _⟩ := Definition.analyze_eq_ok ha
  obtain ⟨_, _, hm⟩ := bind_eq_ok.mp hm
  obtain ⟨_, _, hm⟩ := bind_eq_ok.mp hm
  obtain ⟨_, _, hm⟩ := bind_eq_ok.mp hm
  cases hm
  rfl

/-- What is found first among some things is found first among their partners. -/
theorem find?_of_forall₂ {α β : Type} {R : α → β → Prop} {p : α → Bool} {q : β → Bool}
    {xs : List α} {ys : List β} (h : List.Forall₂ R xs ys) (hpq : ∀ x y, R x y → p x = q y) {y : β}
    (hy : ys.find? q = some y) : ∃ x, xs.find? p = some x ∧ R x y := by
  induction h with
  | nil => cases hy
  | @cons x y' xs ys hxy _ ih =>
    rw [List.find?_cons] at hy ⊢
    rw [hpq x y' hxy]
    cases hq : q y' with
    | true =>
      rw [hq] at hy
      cases hy
      exact ⟨x, rfl, hxy⟩
    | false =>
      rw [hq] at hy
      exact ih hy

namespace Project

variable {text : String} {p : Project}

/-- The models of a text come from its definitions, one by one. -/
theorem forall₂_of_ofText (h : ofText text = .ok p) : ∃ ds, (File.parse text).definitions = .ok ds ∧
    List.Forall₂ (fun d m => ∃ a, d.analyze = .ok a ∧ a.compile = .ok m) ds p.models := by
  unfold ofText ofFile at h
  cases hread : (File.parse text).unreadable? with
  | some e => simp only [hread, reduceCtorEq] at h
  | none =>
    simp only [hread] at h
    cases hds : (File.parse text).definitions with
    | error e => simp only [hds, reduceCtorEq] at h
    | ok ds =>
      simp only [hds] at h
      obtain ⟨as, has, h⟩ := Noted.andThen_eq_ok (mapError_eq_ok.mp h)
      obtain ⟨ms, hms, h⟩ := Noted.andThen_eq_ok h
      cases h
      refine ⟨ds, rfl, ?_⟩
      -- definition, analysis and model stand side by side
      have hds := Noted.each_eq_ok has
      have has := Noted.each_eq_ok hms
      clear * - hds has
      induction hds generalizing ms with
      | nil =>
        cases has
        exact .nil
      | cons hd _ ih =>
        cases has with
        | cons ha has => exact .cons ⟨_, hd, compile_of_compiled ha⟩ (ih _ has)

theorem mem_of_runnable {name : String} {m : Model Float} (h : p.runnable name = .ok m) :
    p.model? name = some m ∧ m.isInterface = false ∧ m.isAbstract = false := by
  unfold runnable at h
  cases hm : p.model? name with
  | none => simp only [hm, reduceCtorEq] at h
  | some m' =>
    simp only [hm] at h
    cases hi : m'.isInterface with
    | true => simp only [hi, ↓reduceIte, reduceCtorEq] at h
    | false =>
      cases habs : m'.isAbstract with
      | true => simp only [hi, habs, Bool.false_eq_true, ↓reduceIte, reduceCtorEq] at h
      | false =>
        simp only [hi, habs, Bool.false_eq_true, ↓reduceIte] at h
        cases h
        exact ⟨rfl, hi, habs⟩

/-- **A model of a text that can be simulated is the one of the first definition of its name,** made
ready to be computed. -/
theorem compiled_of_runnable {name : String} {m : Model Float} (hp : ofText text = .ok p)
    (hm : p.runnable name = .ok m) : ∃ ds d names found, (File.parse text).definitions = .ok ds ∧
      ds.find? (fun d => d.name = name) = some d ∧ Compiled d names found m := by
  obtain ⟨ds, hds, hall⟩ := forall₂_of_ofText hp
  obtain ⟨hfind, _, habstract⟩ := mem_of_runnable hm
  have hname : ∀ (d : Definition) (m : Model Float), (∃ a, d.analyze = .ok a ∧ a.compile = .ok m) →
      decide (d.name = name) = decide (m.name = name) := by
    rintro d m ⟨a, ha, hcompile⟩
    rw [name_of_compile ha hcompile]
  obtain ⟨d, hd, a, ha, hcompile⟩ := find?_of_forall₂ hall hname hfind
  obtain ⟨names, found, hcompiled⟩ := compiled_of_compile ha hcompile habstract
  exact ⟨ds, d, names, found, hds, hd, hcompiled⟩

/-! ## Simulations -/

theorem eq_of_instantiateWith {id : SimId} {name label : String} {spec : Timespec Float}
    {s : Sim Float} (h : p.instantiateWith id name label spec = .ok s) :
    ∃ m, p.runnable name = .ok m ∧ spec.check = .ok spec ∧
      s = .create id label m spec spec.saveEvery := by
  obtain ⟨m, hm, h⟩ := bind_eq_ok.mp h
  obtain ⟨spec', hspec, h⟩ := bind_eq_ok.mp h
  cases h
  have hspec := mapError_eq_ok.mp hspec
  have he : spec' = spec := by
    unfold Timespec.check at hspec
    cases hfault : spec.fault? with
    | some e => simp only [hfault, reduceCtorEq] at hspec
    | none =>
      simp only [hfault, Except.ok.injEq] at hspec
      exact hspec.symm
  rw [he] at hspec ⊢
  exact ⟨m, hm, hspec, rfl⟩

/-- **Simulations of a text find all that they read,** and begin with nothing computed. -/
theorem sound_of_instantiateWith {id : SimId} {name label : String} {spec : Timespec Float}
    {s : Sim Float} (hp : ofText text = .ok p)
    (h : p.instantiateWith id name label spec = .ok s) : s.Sound ∧ s.Fresh := by
  obtain ⟨m, hm, _, rfl⟩ := eq_of_instantiateWith h
  obtain ⟨_, _, _, _, _, _, hcompiled⟩ := compiled_of_runnable hp hm
  exact ⟨Sim.sound_create hcompiled.sound .., Sim.fresh_create ..⟩

/-! ## Trials of small texts -/

/-- A simulation of the main model of a text. -/
def trial (text : String) (spec : Timespec Float) : Option (Project × Sim Float) := do
  let p ← (ofText text).toOption
  let s ← (p.instantiateWith 0 "main" "main" spec).toOption
  return (p, s)

theorem eq_ok_of_toOption {ε α : Type} {x : Except ε α} {a : α} (h : x.toOption = some a) :
    x = .ok a := by
  cases x with
  | error e => cases h
  | ok b => exact congrArg _ (Option.some.inj h)

theorem of_trial {spec : Timespec Float} {s : Sim Float} (h : trial text spec = some (p, s)) :
    ofText text = .ok p ∧ p.instantiateWith 0 "main" "main" spec = .ok s := by
  obtain ⟨p', hp, h⟩ := Option.bind_eq_some_iff.mp h
  obtain ⟨s', hs, h⟩ := Option.bind_eq_some_iff.mp h
  cases h
  exact ⟨eq_ok_of_toOption hp, eq_ok_of_toOption hs⟩

/-! ## A level that grows -/

/-- A level and its rate, which can be set. -/
def growth : String :=
  "model main \x7b rate aux = 2; level = \x7binitial: 1, inflow: rate\x7d; \x7d"

/-- A span of one step. -/
def oneStep : Timespec Float := ⟨0, 1, 1, 1⟩

/-- A simulation of the level that grows. -/
def growthSim (spec : Timespec Float) : Option (Project × Sim Float) := trial growth spec

end Project

end StockFlow
