import StockFlow.Proofs.Equation.StockBody
import StockFlow.Proofs.Model.Entries
import StockFlow.Proofs.Project

/-!
# Structured values in another order

Neither the body of a stock nor a time specification says anything by the order of its elements.
What is read from either is read under keys that are given once, so it is found wherever it stands.
An error may well depend on the order: it is the first that is met.

* `Expr.Reordered` — a structured value with its elements in another order
* `StockBody.ofExpr_reordered` — the body of a stock in another order has the same entries
* `Definition.timespec_eq_ok_iff` — which time specification a model has
* `Expr.entries_in_any_order` — a stock contributes the same, and the same times are specified
-/

namespace StockFlow

/-- **A structured value with its elements in another order.** -/
inductive Expr.Reordered : Expr → Expr → Prop
  | intro {v v' : Expr} {type : Option String} {es es' : List Expr} {at_ at_' : Span}
      (value : v.stripUnits = .composite type es at_)
      (value' : v'.stripUnits = .composite type es' at_') (perm : es'.Perm es) : Reordered v v'

theorem Expr.Reordered.symm {v v' : Expr} (h : v.Reordered v') : v'.Reordered v := by
  obtain ⟨hv, hv', hp⟩ := h
  exact ⟨hv', hv, hp.symm⟩

/-! ## Stocks -/

namespace StockBody

variable {names : Names} {v v' : Expr} {body body' : StockBody}

/-- The entry that an element of the body of a stock gives. -/
def entryOf? : Expr → Option (StockKey × Expr)
  | .keyed name value _ => (StockKey.ofName? name).map fun key => (key, value)
  | _ => none

theorem adds_entryOf? : Adds entryOf? add := by
  intro entries e found
  constructor
  · intro h
    obtain ⟨k, value, at_, rfl, hnew, rfl⟩ := add_eq_ok h
    have hk : StockKey.ofName? k.name = some k := by cases k <;> decide
    exact ⟨(k, value), by rw [entryOf?, hk]; rfl, hnew, rfl⟩
  · rintro ⟨p, hp, hnew, rfl⟩
    cases e with
    | keyed name value at_ =>
      obtain ⟨k, hk, rfl⟩ := Option.map_eq_some_iff.mp hp
      have hold : entries.lookup k = none := hnew
      simp [add, hk, hold]
    | _ => cases hp

/-- **The body of a stock in another order has the same entries.** -/
theorem ofExpr_reordered (h : v.Reordered v') (hbody : ofExpr v = .ok body) :
    ∃ body', ofExpr v' = .ok body' ∧ ∀ key, body'.lookup key = body.lookup key := by
  obtain ⟨hv, hv', hp⟩ := h
  rw [ofExpr, hv] at hbody
  rw [ofExpr, hv']
  simp only at hbody ⊢
  split at hbody
  · next htype =>
    have hcollects := (foldlM_eq_ok_iff adds_entryOf?).mp hbody
    obtain ⟨given, hgiven, hperm⟩ := hcollects.perm hp
    -- What is read last stands in front, so both lists are turned round before they are compared.
    have hsame : given.reverse.Perm body :=
      (given.reverse_perm.trans hperm).trans body.reverse_perm
    refine ⟨given.reverse, ?_, lookup_eq_of_perm hcollects.nodup hsame⟩
    rw [if_pos htype, foldlM_eq_ok_iff adds_entryOf?, List.reverse_reverse]
    exact hgiven
  · cases hbody

theorem start_of_lookup (h : ∀ key, body'.lookup key = body.lookup key) :
    body'.start names = body.start names := by
  rw [start, start, h]

theorem netFlow_of_lookup (h : ∀ key, body'.lookup key = body.lookup key) :
    body'.netFlow names = body.netFlow names := by
  unfold netFlow flow
  simp only [h]

end StockBody

theorem Stmt.stockContribution_reordered {names : Names} {s : Stmt} {v v' : Expr}
    {c : Contribution} (h : v.Reordered v') (hc : s.stockContribution names v = .ok c) :
    s.stockContribution names v' = .ok c := by
  obtain ⟨body, hbody, hc⟩ := bind_eq_ok.mp hc
  obtain ⟨body', hbody', hsame⟩ := StockBody.ofExpr_reordered h hbody
  rw [← StockBody.start_of_lookup hsame, ← StockBody.netFlow_of_lookup hsame] at hc
  exact bind_eq_ok.mpr ⟨body', hbody', hc⟩

/-! ## Time specifications -/

namespace Definition

variable {d d' : Definition} {v v' : Expr} {found : Option (Timespec Float)}

/-- The value that a model gives as its time specification. -/
def timespecValue? (d : Definition) : Option Expr := d.timespecStmt?.bind Stmt.value

/-- **Which time specification a model has** if it gives a value for it: what the elements of that
value specify. -/
theorem timespec_eq_ok_iff (h : d.timespecValue? = some v) : d.timespec = .ok found ↔
    ∃ spec, found = some spec ∧
      ∃ es at_, v.stripUnits = .composite none es at_ ∧ Timespec.Specifies es spec := by
  obtain ⟨s, hs, hv⟩ := Option.bind_eq_some_iff.mp h
  rw [timespec, hs]
  simp only [hv, map_eq_ok, Timespec.ofValue_eq_ok_iff]
  constructor
  · rintro ⟨spec, hspec, hfound⟩
    exact ⟨spec, hfound.symm, hspec⟩
  · rintro ⟨spec, hfound, hspec⟩
    exact ⟨spec, hspec, hfound.symm⟩

theorem timespec_reordered (hr : v.Reordered v') (h : d.timespecValue? = some v)
    (h' : d'.timespecValue? = some v') (hfound : d.timespec = .ok found) :
    d'.timespec = .ok found := by
  obtain ⟨spec, rfl, es, at_, hes, hspec⟩ := (timespec_eq_ok_iff h).mp hfound
  obtain ⟨hv, hv', hp⟩ := hr
  rw [hv] at hes
  cases hes
  exact (timespec_eq_ok_iff h').mpr ⟨spec, rfl, _, _, hv', hspec.perm hp⟩

end Definition

/-! ## The order of elements -/

/-- **The order of the elements of a structured value does not matter,** neither if it is the body
of a stock nor if it specifies times. A stock is accepted in one order exactly if it is in the
other, and then contributes the same starting value and the same rule. A time specification is
accepted in one order exactly if it is in the other, and then specifies the same times; and it is
accepted exactly if its elements specify something. -/
theorem Expr.entries_in_any_order {v v' : Expr} (h : v.Reordered v') :
    (∀ (names : Names) (s : Stmt) (c : Contribution),
      s.stockContribution names v' = .ok c ↔ s.stockContribution names v = .ok c) ∧
    ∀ d d' : Definition, d.timespecValue? = some v → d'.timespecValue? = some v' →
      (∀ found, d'.timespec = .ok found ↔ d.timespec = .ok found) ∧
      ∀ found, d.timespec = .ok found ↔ ∃ spec, found = some spec ∧
        ∃ es at_, v.stripUnits = .composite none es at_ ∧ Timespec.Specifies es spec := by
  refine ⟨fun names s c => ?_, fun d d' hd hd' => ⟨fun found => ?_, fun found => ?_⟩⟩
  · exact ⟨Stmt.stockContribution_reordered h.symm, Stmt.stockContribution_reordered h⟩
  · exact ⟨Definition.timespec_reordered h.symm hd' hd, Definition.timespec_reordered h hd hd'⟩
  · exact Definition.timespec_eq_ok_iff hd

/-! ### A pond -/

/-- A structured value of numbers under keys. -/
def Expr.ofNumerals (entries : List (String × String)) : Expr :=
  .composite none (entries.map fun (key, numeral) => .keyed key (.number numeral default) default)
    default

theorem Expr.reordered_ofNumerals (entries : List (String × String)) :
    (ofNumerals entries).Reordered (ofNumerals entries.reverse) :=
  ⟨rfl, rfl, entries.reverse_perm.map _⟩

/-- What a pond holds, gains and loses. -/
def pond : List (String × String) := [("initial", "3"), ("inflow", "2"), ("outflow", "1")]

/-- Ten days. -/
def tenDays : List (String × String) := [("start", "0"), ("end", "10"), ("dt", "1")]

/-- A model that gives nothing but a time specification. -/
def Definition.lasting (value : Expr) : Definition :=
  ⟨"lake", false, [⟨⟨"timespec", none, none, default⟩, some value⟩], default⟩

/-- What the pond contributes, and the time specification of a model that lasts ten days. -/
def pondAndDays : Option (Contribution × Timespec Float) := do
  let c ← ((default : Stmt).stockContribution ⟨[], [], []⟩ (.ofNumerals pond)).toOption
  let found ← (Definition.lasting (.ofNumerals tenDays)).timespec.toOption
  let spec ← found
  return (c, spec)

theorem Expr.entries_in_any_order_pond : ∃ (c : Contribution) (spec : Timespec Float),
    (default : Stmt).stockContribution ⟨[], [], []⟩ (ofNumerals pond.reverse) = .ok c ∧
    (Definition.lasting (ofNumerals tenDays.reverse)).timespec = .ok (some spec) ∧
    ∃ es at_, ofNumerals tenDays = .composite none es at_ ∧ Timespec.Specifies es spec := by
  have hsome : pondAndDays.isSome = true := by decide +kernel
  obtain ⟨runs, hruns⟩ := Option.isSome_iff_exists.mp hsome
  unfold pondAndDays at hruns
  obtain ⟨c, hc, hruns⟩ := Option.bind_eq_some_iff.mp hruns
  obtain ⟨found, hfound, hruns⟩ := Option.bind_eq_some_iff.mp hruns
  obtain ⟨spec, rfl, _⟩ := Option.bind_eq_some_iff.mp hruns
  have hspec := Project.eq_ok_of_toOption hfound
  obtain ⟨hstock, _⟩ := entries_in_any_order (reordered_ofNumerals pond)
  obtain ⟨_, htimes⟩ := entries_in_any_order (reordered_ofNumerals tenDays)
  obtain ⟨hsame, hread⟩ := htimes (.lasting (ofNumerals tenDays))
    (.lasting (ofNumerals tenDays.reverse)) rfl rfl
  obtain ⟨_, heq, hspecifies⟩ := (hread _).mp hspec
  cases heq
  exact ⟨c, spec, (hstock _ _ c).mpr (Project.eq_ok_of_toOption hc), (hsame _).mpr hspec,
    hspecifies⟩

end StockFlow
