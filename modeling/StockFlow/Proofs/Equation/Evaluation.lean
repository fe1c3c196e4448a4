import StockFlow.Equation.Formula

/-!
# What a formula stands for

The value of a formula in a setting: a value for each name, a default for each name, tables and the
step. Unlike a simulation, a setting answers at once and nothing in it changes.

* `Formula.value?` — the value of a formula, if all that it needs is there
* `Formula.value?_congr` — only what a formula mentions matters
* `Formula.isSome_value?` — a formula has a value if all that it mentions is there
-/

namespace StockFlow

/-- What the value of a formula depends on. -/
structure Setting (α : Type) where
  /-- The present values. -/
  value : String → Option α
  /-- The values of variables that ask for their defaults. -/
  default : String → Option α
  table : String → Option (Table α)
  /-- The step. -/
  dt : α

namespace Formula

variable {α : Type}

/-- The variables whose defaults a formula asks for, each time it asks. -/
def asked : Formula α → List String
  | const _ | var _ | dt | pi => []
  | default name => [name]
  | negate x | lookup _ x | apply1 _ x => x.asked
  | binary _ x y | apply2 _ x y => x.asked ++ y.asked

/-- The tables that a formula looks up, each time it does. -/
def tables : Formula α → List String
  | const _ | var _ | default _ | dt | pi => []
  | lookup table x => table :: x.tables
  | negate x | apply1 _ x => x.tables
  | binary _ x y | apply2 _ x y => x.tables ++ y.tables

theorem mem_reads {f : Formula α} {name : String} : name ∈ f.reads ↔ name ∈ f.vars := by
  simp [reads]

theorem readsDefault_iff {f : Formula α} {name : String} :
    f.readsDefault name = true ↔ name ∈ f.asked := by
  induction f with
  | const _ | var _ | dt | pi => simp [readsDefault, asked]
  | default n => simp [readsDefault, asked, eq_comm]
  | negate x ih | lookup _ x ih | apply1 _ x ih => simpa [readsDefault, asked] using ih
  | binary _ x y ihx ihy | apply2 _ x y ihx ihy => simp [readsDefault, asked, ihx, ihy]

variable [Scalar α]

/-- **The value of a formula in a setting;** `none` if something that it needs is not there. -/
def value? (w : Setting α) : Formula α → Option α
  | const x => some x
  | var name => w.value name
  | default name => w.default name
  | dt => some w.dt
  | negate x => (x.value? w).map Scalar.neg
  | binary op l r => (l.value? w).bind fun x => (r.value? w).map fun y => Scalar.operate op x y
  | lookup table i => (i.value? w).bind fun x => (w.table table).map fun t => t.lookup x
  | pi => some Scalar.pi
  | apply1 f x => (x.value? w).map (Scalar.unary f)
  | apply2 f x y => (x.value? w).bind fun x => (y.value? w).map fun y => Scalar.binary f x y

/-- **Only what a formula mentions matters for its value.** -/
theorem value?_congr {f : Formula α} {w w' : Setting α}
    (hvars : ∀ n ∈ f.vars, w.value n = w'.value n)
    (hasked : ∀ n ∈ f.asked, w.default n = w'.default n)
    (htables : ∀ n ∈ f.tables, w.table n = w'.table n) (hdt : w.dt = w'.dt) :
    f.value? w = f.value? w' := by
  induction f with
  | const _ | pi => rfl
  | dt => simp only [value?, hdt]
  | var n => exact hvars n (by simp [vars])
  | default n => exact hasked n (by simp [asked])
  | negate x ih | apply1 _ x ih => simp only [value?, ih hvars hasked htables]
  | lookup t x ih =>
    simp only [value?, htables t (by simp [tables]),
      ih hvars hasked fun n hn => htables n (by simp [tables, hn])]
  | binary _ x y ihx ihy | apply2 _ x y ihx ihy =>
    simp only [vars, asked, tables, List.mem_append] at hvars hasked htables
    simp only [value?, ihx (fun n hn => hvars n (.inl hn)) (fun n hn => hasked n (.inl hn))
        (fun n hn => htables n (.inl hn)),
      ihy (fun n hn => hvars n (.inr hn)) (fun n hn => hasked n (.inr hn))
        (fun n hn => htables n (.inr hn))]

/-- **A formula has a value if all that it mentions is there.** -/
theorem isSome_value? {f : Formula α} {w : Setting α}
    (hvars : ∀ n ∈ f.vars, (w.value n).isSome) (hasked : ∀ n ∈ f.asked, (w.default n).isSome)
    (htables : ∀ n ∈ f.tables, (w.table n).isSome) : (f.value? w).isSome := by
  induction f with
  | const _ | pi | dt => rfl
  | var n => exact hvars n (by simp [vars])
  | default n => exact hasked n (by simp [asked])
  | negate x ih | apply1 _ x ih =>
    rw [value?, Option.isSome_map]
    exact ih hvars hasked htables
  | lookup t x ih =>
    obtain ⟨v, hv⟩ := Option.isSome_iff_exists.mp
      (ih hvars hasked fun n hn => htables n (by simp [tables, hn]))
    simp only [value?, hv, Option.bind_some, Option.isSome_map]
    exact htables t (by simp [tables])
  | binary _ x y ihx ihy | apply2 _ x y ihx ihy =>
    simp only [vars, asked, tables, List.mem_append] at hvars hasked htables
    obtain ⟨v, hv⟩ := Option.isSome_iff_exists.mp (ihx (fun n hn => hvars n (.inl hn))
      (fun n hn => hasked n (.inl hn)) (fun n hn => htables n (.inl hn)))
    simp only [value?, hv, Option.bind_some, Option.isSome_map]
    exact ihy (fun n hn => hvars n (.inr hn)) (fun n hn => hasked n (.inr hn))
      (fun n hn => htables n (.inr hn))

end Formula

end StockFlow
