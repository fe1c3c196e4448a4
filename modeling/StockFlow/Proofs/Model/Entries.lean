import StockFlow.Model.Analysis
import StockFlow.Proofs.Answer

/-!
# Entries that are collected one by one

The bodies of stocks and of time specifications are read element by element. Each element adds an
entry in front of those before it, unless its key stands there already.

* `Collects` — what elements give, an entry each and no two under one key
* `foldlM_eq_ok_iff` — it is what is collected
* `Collects.perm` — elements in another order give the same entries in another order
* `Timespec.Specifies` — what the elements of a time specification have to be, and what they specify
* `Timespec.ofValue_eq_ok_iff` — a time specification is read exactly if its elements specify it
-/

namespace StockFlow

/-! ## Collecting -/

section

variable {κ ν φ : Type} [DecidableEq κ] {read? : Expr → Option (κ × ν)}
  {add : List (κ × ν) → Expr → Except φ (List (κ × ν))} {es es' : List Expr}
  {entries found given : List (κ × ν)}

/-- What adds an element to entries puts in front of them what the element gives, if its key is
new. -/
def Adds (read? : Expr → Option (κ × ν))
    (add : List (κ × ν) → Expr → Except φ (List (κ × ν))) : Prop :=
  ∀ entries e found, add entries e = .ok found ↔
    ∃ p, read? e = some p ∧ entries.lookup p.1 = none ∧ found = p :: entries

/-- **What elements give:** an entry each, and no two under one key. -/
structure Collects (read? : Expr → Option (κ × ν)) (es : List Expr) (given : List (κ × ν)) :
    Prop where
  each : List.Forall₂ (fun e p => read? e = some p) es given
  once : (given.map Prod.fst).Nodup

omit [DecidableEq κ] in
/-- **Elements in another order give the same entries in another order.** -/
theorem Collects.perm (h : Collects read? es given) (hp : es'.Perm es) :
    ∃ given', Collects read? es' given' ∧ given'.Perm given := by
  obtain ⟨given', heach, hperm⟩ := List.perm_comp_forall₂ hp h.each
  exact ⟨given', ⟨heach, (hperm.map Prod.fst).nodup_iff.mpr h.once⟩, hperm⟩

theorem lookup_eq_none_iff {k : κ} : entries.lookup k = none ↔ k ∉ entries.map Prod.fst := by
  rw [List.lookup_eq_none_iff, List.mem_map, not_exists]
  refine forall_congr' fun p => ?_
  rw [not_and, bne_iff_ne, ne_comm]

/-- Where keys are distinct, what stands under a key does not depend on the order. -/
theorem lookup_eq_of_perm (hnd : (entries.map Prod.fst).Nodup) (hp : found.Perm entries) (k : κ) :
    found.lookup k = entries.lookup k := by
  have hnd' := (hp.map Prod.fst).nodup_iff.mpr hnd
  refine Option.ext fun x => ?_
  rw [lookup_eq_some_iff hnd, lookup_eq_some_iff hnd', hp.mem_iff]

omit [DecidableEq κ] in
theorem Collects.nodup (h : Collects read? es entries.reverse) :
    (entries.map Prod.fst).Nodup :=
  ((entries.reverse_perm.map Prod.fst).nodup_iff).mp h.once

theorem foldlM_add_eq_ok_iff (hadd : Adds read? add) (hnd : (entries.map Prod.fst).Nodup) :
    es.foldlM add entries = .ok found ↔
      ∃ given, List.Forall₂ (fun e p => read? e = some p) es given ∧
        found = given.reverse ++ entries ∧ (found.map Prod.fst).Nodup := by
  induction es generalizing entries with
  | nil =>
    rw [List.foldlM_nil]
    constructor
    · intro h
      cases h
      exact ⟨[], .nil, rfl, hnd⟩
    · rintro ⟨given, heach, rfl, -⟩
      cases heach
      rfl
  | cons e es ih =>
    rw [List.foldlM_cons, bind_eq_ok]
    constructor
    · rintro ⟨next, hnext, h⟩
      obtain ⟨p, hp, hnew, rfl⟩ := (hadd _ _ _).mp hnext
      have hnd' : ((p :: entries).map Prod.fst).Nodup :=
        List.nodup_cons.mpr ⟨lookup_eq_none_iff.mp hnew, hnd⟩
      obtain ⟨given, heach, rfl, honce⟩ := (ih hnd').mp h
      exact ⟨p :: given, .cons hp heach, by simp, honce⟩
    · rintro ⟨_, heach, rfl, honce⟩
      -- That the key of `e` is new is part of what is known of the keys at the end.
      obtain ⟨p, given, hp, hgiven, rfl⟩ := List.forall₂_cons_left_iff.mp heach
      have hsplit : (p :: given).reverse ++ entries = given.reverse ++ p :: entries := by simp
      rw [hsplit] at honce
      have hnd' : ((p :: entries).map Prod.fst).Nodup := by
        rw [List.map_append] at honce
        exact honce.of_append_right
      have hnew := lookup_eq_none_iff.mpr (List.nodup_cons.mp hnd').1
      exact ⟨p :: entries, (hadd _ _ _).mpr ⟨p, hp, hnew, rfl⟩,
        (ih hnd').mpr ⟨given, hgiven, hsplit, hsplit ▸ honce⟩⟩

/-- **What is collected is what the elements give,** the last of them in front. -/
theorem foldlM_eq_ok_iff (hadd : Adds read? add) :
    es.foldlM add [] = .ok found ↔ Collects read? es found.reverse := by
  have hnil : (([] : List (κ × ν)).map Prod.fst).Nodup := List.nodup_nil
  rw [foldlM_add_eq_ok_iff hadd hnil]
  constructor
  · rintro ⟨given, heach, rfl, honce⟩
    rw [List.append_nil] at honce ⊢
    exact ⟨by rwa [List.reverse_reverse], (((List.reverse_perm _).map _).nodup_iff).mpr honce⟩
  · intro h
    exact ⟨found.reverse, h.each, by simp, h.nodup⟩

end

/-! ## Constants under keys -/

namespace Expr

/-- A numeral, perhaps behind a minus sign. -/
inductive IsNumeral : Expr → Float → Prop
  | plain (numeral : String) (at_ : Span) :
    IsNumeral (.number numeral at_) (Decimal.ofNumeral numeral)
  | negated (numeral : String) (at_ at_' : Span) :
    IsNumeral (.negate (.number numeral at_) at_') (-Decimal.ofNumeral numeral)

/-- **A constant:** a numeral, perhaps behind a minus sign, perhaps with a note of its units. -/
inductive IsConstant : Expr → Float → Prop
  | bare {e : Expr} {x : Float} (h : IsNumeral e x) : IsConstant e x
  | noted {e : Expr} {x : Float} (h : IsNumeral e x) (note : Expr) (at_ : Span) :
    IsConstant (.units e note at_) x

variable {e v : Expr} {key : String} {x : Float}

theorem isConstant_of_stripUnits (h : e.stripUnits.IsNumeral x) : e.IsConstant x := by
  cases e with
  | units value note at_ => exact .noted h note at_
  | _ => exact .bare h

theorem constant?_eq_some_iff : e.constant? = some x ↔ e.IsConstant x := by
  constructor
  · intro h
    unfold constant? at h
    refine isConstant_of_stripUnits ?_
    split at h
    · next numeral at_ hv =>
      cases h
      rw [hv]
      exact .plain numeral at_
    · next numeral at_ at_' hv =>
      cases h
      rw [hv]
      exact .negated numeral at_ at_'
    · cases h
  · rintro (h | ⟨h, note, at_⟩)
    · cases h <;> rfl
    · cases h <;> rfl

/-- An element that gives a constant under a key. -/
def Gives (key : String) (x : Float) (e : Expr) : Prop :=
  ∃ value at_, e = .keyed key value at_ ∧ value.IsConstant x

/-- The key of an element. -/
def key? : Expr → Option String
  | .keyed key _ _ => some key
  | _ => none

end Expr

/-! ## Time specifications -/

namespace Timespec

variable {e v : Expr} {es es' : List Expr} {spec : Timespec Float} {key : Key} {x : Float}
  {entries : Entries} {given : List (Key × Float)} {name model : String}

theorem Key.ofName?_eq_some_iff : Key.ofName? name = some key ↔ key.name = name := by
  constructor
  · intro h
    simpa using List.find?_some h
  · rintro rfl
    cases key <;> decide

theorem Key.exists_name_eq (h : name ∈ ["start", "end", "dt", "save_step"]) :
    ∃ key : Key, key.name = name := by
  simp only [List.mem_cons, List.not_mem_nil, or_false] at h
  rcases h with rfl | rfl | rfl | rfl
  · exact ⟨.start, rfl⟩
  · exact ⟨.stop, rfl⟩
  · exact ⟨.dt, rfl⟩
  · exact ⟨.saveStep, rfl⟩

theorem Key.name_injective : Function.Injective Key.name := by
  intro k k' h
  revert h
  cases k <;> cases k' <;> decide

/-- The entry that an element gives. -/
def entryOf? : Expr → Option (Key × Float)
  | .keyed name value _ => do return (← Key.ofName? name, ← value.constant?)
  | _ => none

theorem entryOf?_eq_some_iff : entryOf? e = some (key, x) ↔ e.Gives key.name x := by
  constructor
  · intro h
    cases e with
    | keyed name value at_ =>
      obtain ⟨k, hk, h⟩ := Option.bind_eq_some_iff.mp h
      obtain ⟨y, hy, h⟩ := Option.bind_eq_some_iff.mp h
      cases h
      rw [Key.ofName?_eq_some_iff.mp hk]
      exact ⟨value, at_, rfl, Expr.constant?_eq_some_iff.mp hy⟩
    | _ => cases h
  · rintro ⟨value, at_, rfl, h⟩
    rw [entryOf?, Key.ofName?_eq_some_iff.mpr rfl, Expr.constant?_eq_some_iff.mpr h]
    rfl

theorem adds_entryOf? : Adds entryOf? Entries.add := by
  intro entries e found
  constructor
  · intro h
    cases e with
    | keyed name value at_ =>
      unfold Entries.add at h
      cases hk : Key.ofName? name with
      | none => simp only [hk, reduceCtorEq] at h
      | some k =>
        simp only [hk] at h
        cases hold : entries.lookup k with
        | some y => simp only [hold, Option.isSome_some, ↓reduceIte, reduceCtorEq] at h
        | none =>
          cases hx : value.constant? with
          | none => simp [hold, hx] at h
          | some y =>
            simp only [hold, hx, Option.isSome_none, Bool.false_eq_true, ↓reduceIte] at h
            cases h
            exact ⟨(k, y), by rw [entryOf?, hk, hx]; rfl, hold, rfl⟩
    | _ => cases h
  · rintro ⟨⟨k, y⟩, hp, hnew, rfl⟩
    obtain ⟨value, at_, rfl, hy⟩ := entryOf?_eq_some_iff.mp hp
    have hk : Key.ofName? k.name = some k := Key.ofName?_eq_some_iff.mpr rfl
    have hold : entries.lookup k = none := hnew
    simp [Entries.add, hk, hold, Expr.constant?_eq_some_iff.mpr hy]

/-- **What the elements of a time specification specify.** Each of them gives a constant under one
of four keys, no key is given twice, and the record step alone may be left out. -/
structure Specifies (es : List Expr) (spec : Timespec Float) : Prop where
  known : ∀ e ∈ es, ∃ key ∈ ["start", "end", "dt", "save_step"], ∃ x, e.Gives key x
  once : (es.filterMap Expr.key?).Nodup
  start : ∃ e ∈ es, e.Gives "start" spec.start
  stop : ∃ e ∈ es, e.Gives "end" spec.stop
  dt : ∃ e ∈ es, e.Gives "dt" spec.dt
  saveStep : (∃ e ∈ es, e.Gives "save_step" spec.saveStep) ∨
    "save_step" ∉ es.filterMap Expr.key? ∧ spec.saveStep = spec.dt
  checked : spec.check = .ok spec

theorem Specifies.perm (h : Specifies es spec) (hp : es'.Perm es) : Specifies es' spec := by
  have hkeys := hp.filterMap Expr.key?
  have hgives : ∀ {key x}, (∃ e ∈ es, e.Gives key x) → ∃ e ∈ es', e.Gives key x :=
    fun ⟨e, he, hx⟩ => ⟨e, hp.mem_iff.mpr he, hx⟩
  refine ⟨fun e he => h.known e (hp.mem_iff.mp he), hkeys.nodup_iff.mpr h.once, hgives h.start,
    hgives h.stop, hgives h.dt, h.saveStep.imp hgives fun hmissing => ?_, h.checked⟩
  exact ⟨fun hmem => hmissing.1 (hkeys.mem_iff.mp hmem), hmissing.2⟩

/-- The keys of elements that give entries are those of the entries. -/
theorem filterMap_key? (h : List.Forall₂ (fun e p => entryOf? e = some p) es given) :
    es.filterMap Expr.key? = (given.map Prod.fst).map Key.name := by
  induction h with
  | nil => rfl
  | @cons e p es given he _ ih =>
    obtain ⟨value, at_, rfl, -⟩ := entryOf?_eq_some_iff.mp he
    rw [List.filterMap_cons, ih]
    rfl

theorem mem_given_iff (h : List.Forall₂ (fun e p => entryOf? e = some p) es given) :
    (key, x) ∈ given ↔ ∃ e ∈ es, e.Gives key.name x := by
  constructor
  · intro hmem
    obtain ⟨e, he, hgives⟩ := exists_of_mem_right h hmem
    exact ⟨e, he, entryOf?_eq_some_iff.mp hgives⟩
  · rintro ⟨e, he, hgives⟩
    obtain ⟨p, hp, hsome⟩ := exists_of_mem_left h he
    rw [entryOf?_eq_some_iff.mpr hgives] at hsome
    exact Option.some.inj hsome ▸ hp

theorem required_eq_ok_iff : entries.required key = .ok x ↔ entries.lookup key = some x := by
  unfold Entries.required
  cases entries.lookup key <;> simp

theorem check_eq_ok_iff {spec' : Timespec Float} :
    spec.check = .ok spec' ↔ spec = spec' ∧ spec.fault? = none := by
  unfold check
  cases spec.fault? <;> simp

theorem ofEntries_eq_ok_iff : ofEntries entries = .ok spec ↔
    entries.lookup .start = some spec.start ∧ entries.lookup .stop = some spec.stop ∧
      entries.lookup .dt = some spec.dt ∧
      spec.saveStep = (entries.lookup .saveStep).getD spec.dt ∧ spec.fault? = none := by
  unfold ofEntries
  simp only [bind_eq_ok, required_eq_ok_iff, check_eq_ok_iff]
  constructor
  · rintro ⟨start, hstart, stop, hstop, dt, hdt, rfl, hfault⟩
    exact ⟨hstart, hstop, hdt, rfl, hfault⟩
  · rintro ⟨hstart, hstop, hdt, hsave, hfault⟩
    refine ⟨_, hstart, _, hstop, _, hdt, ?_, ?_⟩
    · rw [← hsave]
    · rw [← hsave]
      exact hfault

theorem lookup_iff_gives (h : Collects entryOf? es entries.reverse) :
    entries.lookup key = some x ↔ ∃ e ∈ es, e.Gives key.name x := by
  rw [lookup_eq_some_iff h.nodup, ← List.mem_reverse, mem_given_iff h.each]

theorem lookup_eq_none_iff_missing (h : Collects entryOf? es entries.reverse) :
    entries.lookup key = none ↔ key.name ∉ es.filterMap Expr.key? := by
  rw [lookup_eq_none_iff, filterMap_key? h.each, List.mem_map_of_injective Key.name_injective,
    List.map_reverse, List.mem_reverse]

/-- **Elements that are collected specify what is made of the entries.** -/
theorem specifies_iff (h : Collects entryOf? es entries.reverse) :
    ofEntries entries = .ok spec ↔ Specifies es spec := by
  rw [ofEntries_eq_ok_iff, lookup_iff_gives h, lookup_iff_gives h, lookup_iff_gives h]
  constructor
  · rintro ⟨hstart, hstop, hdt, hsave, hfault⟩
    refine ⟨fun e he => ?_, ?_, hstart, hstop, hdt, ?_,
      check_eq_ok_iff.mpr ⟨rfl, hfault⟩⟩
    · obtain ⟨p, _, hp⟩ := exists_of_mem_left h.each he
      exact ⟨p.1.name, by cases p.1 <;> decide, p.2, entryOf?_eq_some_iff.mp hp⟩
    · rw [filterMap_key? h.each]
      exact h.once.map Key.name_injective
    · cases hgiven : entries.lookup .saveStep with
      | some y =>
        rw [hgiven, Option.getD_some] at hsave
        rw [hsave]
        exact .inl ((lookup_iff_gives h).mp hgiven)
      | none =>
        rw [hgiven] at hsave
        exact .inr ⟨(lookup_eq_none_iff_missing h).mp hgiven, hsave⟩
  · intro hspec
    refine ⟨hspec.start, hspec.stop, hspec.dt, ?_, check_eq_ok_iff.mp hspec.checked |>.2⟩
    rcases hspec.saveStep with hgiven | ⟨hmissing, hsave⟩
    · have hfound : entries.lookup .saveStep = some spec.saveStep := (lookup_iff_gives h).mpr hgiven
      rw [hfound]
      rfl
    · have hfound : entries.lookup .saveStep = none := (lookup_eq_none_iff_missing h).mpr hmissing
      rw [hfound]
      exact hsave

/-- Elements that specify something are collected. -/
theorem Specifies.exists_collects (h : Specifies es spec) :
    ∃ entries : Entries, Collects entryOf? es entries.reverse := by
  have hentry : ∀ e ∈ es, ∃ p, entryOf? e = some p := by
    intro e he
    obtain ⟨name, hname, x, hx⟩ := h.known e he
    obtain ⟨key, rfl⟩ := Key.exists_name_eq hname
    exact ⟨(key, x), entryOf?_eq_some_iff.mpr hx⟩
  obtain ⟨given, heach⟩ := exists_forall₂_iff.mpr hentry
  have honce := h.once
  rw [filterMap_key? heach] at honce
  refine ⟨given.reverse, ?_⟩
  rw [List.reverse_reverse]
  exact ⟨heach, List.Nodup.of_map Key.name honce⟩

/-- **A time specification is read exactly if its elements specify it.** -/
theorem ofValue_eq_ok_iff : ofValue model v = .ok spec ↔
    ∃ es at_, v.stripUnits = .composite none es at_ ∧ Specifies es spec := by
  constructor
  · intro h
    unfold ofValue at h
    split at h
    · next es at_ hv =>
      obtain ⟨entries, hentries, h⟩ := bind_eq_ok.mp h
      have hcollects := (foldlM_eq_ok_iff adds_entryOf?).mp hentries
      exact ⟨es, at_, hv, (specifies_iff hcollects).mp h⟩
    · cases h
  · rintro ⟨es, at_, hv, hspec⟩
    obtain ⟨entries, hcollects⟩ := hspec.exists_collects
    have hentries := (foldlM_eq_ok_iff adds_entryOf?).mpr hcollects
    rw [ofValue, hv]
    exact bind_eq_ok.mpr ⟨entries, hentries, (specifies_iff hcollects).mpr hspec⟩

end Timespec

end StockFlow
