import StockFlow.Engine.Report
import StockFlow.Proofs.Answer

/-!
# What a report says

* `Report.rows_push` — a row that is added is the last of the rows
* `Report.data_eq` — the stored values are those of the rows, one behind the other
* `Report.eq_of_rows` — a report is known by its rows
* `Report.series_of_rows` — the series of a name are its values
* `Report.Records` — a report that holds some observations
* `Report.tsv_eq_of_records` — the text of a report does not depend on the order of its columns
-/

namespace StockFlow.Report

variable {α : Type} {r r' : Report α}

/-! ## Rows -/

/-- The last row is cut from what is left behind rows of the whole width. -/
theorem cut_concat {width : Nat} {times values : List α} (time : α) (row : List α)
    (h : values.length = times.length * width) : cut width (times ++ [time]) (values ++ row) =
      cut width times values ++ [(time, row.take width)] := by
  induction times generalizing values with
  | nil =>
    rw [List.length_nil, Nat.zero_mul, List.length_eq_zero_iff] at h
    rw [h]
    rfl
  | cons t times ih =>
    rw [List.length_cons, Nat.succ_mul] at h
    have hdrop : (values.drop width).length = times.length * width := by
      rw [List.length_drop, h, Nat.add_sub_cancel]
    show (t, (values ++ row).take width) ::
      cut width (times ++ [time]) ((values ++ row).drop width) = _
    rw [List.take_append_of_le_length (by omega), List.drop_append_of_le_length (by omega),
      ih hdrop]
    rfl

theorem cut_nil (width : Nat) (times : List α) :
    cut width times [] = times.map fun t => (t, []) := by
  induction times with
  | nil => rfl
  | cons t times ih => rw [cut, List.take_nil, List.drop_nil, ih, List.map_cons]

/-- **A row that is added is the last of the rows.** -/
theorem rows_push (r : Report α) (time : α) (value : String → α) :
    (r.push time value).rows = r.rows.push (time, r.names.map value) := by
  have hrow : (r.names.map value).length = r.width := by rw [List.length_map, r.width_eq]
  have hlength : r.data.toList.length = r.moments.toList.length * r.width := by simp [r.size_data]
  have hcut : cut (max r.width 1) (r.moments.toList ++ [time])
      (r.data.toList ++ r.names.map value) =
        cut (max r.width 1) r.moments.toList r.data.toList ++ [(time, r.names.map value)] := by
    cases hwidth : r.width with
    | zero =>
      -- without names there are no values, and every row is empty
      rw [hwidth, Nat.mul_zero, List.length_eq_zero_iff] at hlength
      rw [hwidth, List.length_eq_zero_iff] at hrow
      rw [hlength, hrow, List.append_nil, cut_nil, cut_nil, List.map_append]
      rfl
    | succ n =>
      rw [hwidth] at hlength hrow
      rw [Nat.max_eq_left (Nat.le_add_left 1 n), cut_concat time _ hlength, ← hrow,
        List.take_length]
  simp [rows, push, append, hcut]

theorem cut_flatMap {width : Nat} {times values : List α}
    (h : values.length = times.length * width) :
    (cut (max width 1) times values).flatMap Prod.snd = values := by
  induction times generalizing values with
  | nil =>
    rw [List.length_nil, Nat.zero_mul, List.length_eq_zero_iff] at h
    rw [h]
    rfl
  | cons t times ih =>
    rw [List.length_cons, Nat.succ_mul] at h
    have hdrop : (values.drop (max width 1)).length = times.length * width := by
      cases width with
      | zero => simp_all
      | succ n => rw [List.length_drop, h, Nat.max_eq_left (by omega), Nat.add_sub_cancel]
    rw [cut, List.flatMap_cons, ih hdrop, List.take_append_drop]

theorem cut_fst (width : Nat) (times values : List α) :
    (cut width times values).map Prod.fst = times := by
  induction times generalizing values with
  | nil => rfl
  | cons t times ih => rw [cut, List.map_cons, ih]

/-- The stored values are those of the rows, one behind the other. -/
theorem data_eq (r : Report α) : r.data.toList = r.rows.toList.flatMap Prod.snd := by
  refine (cut_flatMap ?_).symm
  simp [r.size_data]

theorem times_eq_rows (r : Report α) : r.times = r.rows.toList.map Prod.fst :=
  (cut_fst ..).symm

/-- A report is known by its rows. -/
theorem eq_of_rows (hlabel : r'.label = r.label) (hnames : r'.names = r.names)
    (hrows : r'.rows = r.rows) : r' = r := by
  have hdata : r'.data = r.data := by
    rw [← Array.toList_inj, data_eq, data_eq, hrows]
  have hmoments : r'.moments = r.moments := by
    rw [← Array.toList_inj]
    show r'.times = r.times
    rw [times_eq_rows, times_eq_rows, hrows]
  have hwidth : r'.width = r.width := by rw [r'.width_eq, r.width_eq, hnames]
  cases r
  cases r'
  cases hlabel
  cases hnames
  cases hdata
  cases hmoments
  cases hwidth
  rfl

/-! ## Observations -/

/-- What was observed at a time: a value for every name. -/
abbrev Observation (α : Type) := α × (String → α)

/-- A report holds some observations: each row has the values of the recorded names. -/
def Records (r : Report α) (observed : List (Observation α)) : Prop :=
  r.rows.toList = observed.map fun o => (o.1, r.names.map o.2)

/-! ## Columns -/

theorem qualified_inj {n n' : String} (h : r.qualified n = r.qualified n') :
    n = n' := (String.append_right_inj _).mp h

/-- A column belongs to its name. -/
theorem getElem?_of_column? {n : String} {i : Nat} (h : r.column? n = some i) :
    r.names[i]? = some n :=
  List.mk_mem_zipIdx_iff_getElem?.mp (List.mem_reverse.mp (mem_of_lookup_eq_some h))

/-- Where names are distinct, the column of a name is its place among them. -/
theorem column?_eq_some {name : String} (hnd : r.names.Nodup) {i : Nat}
    (hi : r.names[i]? = some name) :
    r.column? name = some i := by
  have hmem : (name, i) ∈ r.names.zipIdx.reverse :=
    List.mem_reverse.mpr (List.mk_mem_zipIdx_iff_getElem?.mpr hi)
  have hfst : r.names.zipIdx.map Prod.fst = r.names := List.zipIdx_map_fst ..
  refine lookup_eq_some_of_mem ?_ hmem
  rwa [List.map_reverse, List.nodup_reverse, hfst]

/-- **The series of a name are its values,** where each row has a value for every name. -/
theorem series_of_rows {β : Type} {name : String} {observed : List β} {time : β → α}
    {value : β → String → α} (hnd : r.names.Nodup) (hname : name ∈ r.names)
    (hrows : r.rows.toList = observed.map fun o => (time o, r.names.map (value o))) :
    r.series name = some (observed.map fun o => value o name) := by
  obtain ⟨i, hi⟩ := List.mem_iff_getElem?.mp hname
  have hcell : ∀ o, (r.names.map (value o))[i]? = some (value o name) := by
    intro o
    rw [List.getElem?_map, hi, Option.map_some]
  rw [series, column?_eq_some hnd hi, Option.map_some, hrows, List.filterMap_map]
  refine congrArg some ?_
  rw [← List.filterMap_eq_map]
  exact List.filterMap_congr fun o _ => hcell o

/-- A name that is not recorded has no series. -/
theorem series_eq_none {n : String} (h : n ∉ r.names) : r.series n = none := by
  cases hcolumn : r.column? n with
  | none => rw [series, hcolumn, Option.map_none]
  | some i => exact absurd (List.mem_of_getElem? (getElem?_of_column? hcolumn)) h

theorem columns_perm (r : Report α) :
    r.columns.Perm (r.names.zipIdx.map fun (name, i) => (r.qualified name, i)) :=
  List.mergeSort_perm _ _

theorem columns_sorted (r : Report α) : r.columns.Pairwise fun a b => a.1 ≤ b.1 := by
  refine (List.pairwise_mergeSort ?trans ?total _).imp of_decide_eq_true
  case trans =>
    intro a b c hab hbc
    simp only [decide_eq_true_eq] at hab hbc ⊢
    exact String.le_trans hab hbc
  case total =>
    intro a b
    simpa using String.le_total a.1 b.1

/-- The columns with what a row has in them. -/
def cells (r : Report α) (row : List α) : List (String × Option α) :=
  r.columns.map fun c => (c.1, row[c.2]?)

/-- A row of observed values has each of them in the column of its name. -/
theorem cells_perm (r : Report α) (f : String → α) :
    (r.cells (r.names.map f)).Perm (r.names.map fun n => (r.qualified n, some (f n))) := by
  refine (r.columns_perm.map _).trans (List.Perm.of_eq ?_)
  rw [List.map_map]
  have hcell : ∀ c ∈ r.names.zipIdx, (r.qualified c.1, (r.names.map f)[c.2]?) =
      (r.qualified c.1, some (f c.1)) := by
    rintro ⟨n, i⟩ hc
    rw [List.getElem?_map, List.mk_mem_zipIdx_iff_getElem?.mp hc, Option.map_some]
  refine (List.map_congr_left hcell).trans ?_
  show r.names.zipIdx.map ((fun n => (r.qualified n, some (f n))) ∘ Prod.fst) = _
  rw [← List.map_map, List.zipIdx_map_fst]

/-- **The cells of a row do not depend on the order of the recorded names.** -/
theorem cells_eq_of_perm (hlabel : r'.label = r.label)
    (hnames : r'.names.Perm r.names) (f : String → α) :
    r'.cells (r'.names.map f) = r.cells (r.names.map f) := by
  have hqualified : r'.qualified = r.qualified := by
    unfold qualified
    rw [hlabel]
  have hsorted : ∀ r : Report α, (r.cells (r.names.map f)).Pairwise fun a b => a.1 ≤ b.1 :=
    fun r => List.pairwise_map.mpr r.columns_sorted
  have hsame := r'.cells_perm f
  rw [hqualified] at hsame
  have hperm := hsame.trans ((hnames.map _).trans (r.cells_perm f).symm)
  refine hperm.eq_of_pairwise ?_ (hsorted r') (hsorted r)
  intro a b ha hb hab hba
  -- a name stands for one value, so cells of one column are the same
  obtain ⟨n, _, rfl⟩ := List.mem_map.mp (hsame.mem_iff.mp ha)
  obtain ⟨n', _, rfl⟩ := List.mem_map.mp ((r.cells_perm f).mem_iff.mp hb)
  rw [qualified_inj (String.le_antisymm hab hba)]

/-! ## As text -/

theorem columns_fst (r : Report α) (row : List α) :
    r.columns.map Prod.fst = (r.cells row).map Prod.fst := by
  rw [cells, List.map_map]
  rfl

theorem tsvRow_eq (r : Report Float) (row : Float × List Float) : tsvRow r.columns row =
    tsvLine (Decimal.fixed row.1 ::
      (r.cells row.2).map fun c => (c.2.map Decimal.fixed).getD "") := by
  rw [tsvRow, cells, List.map_map]
  rfl

/-- **Reports of the same observations have the same text,** in whatever order they record the
names. -/
theorem tsv_eq_of_records {r r' : Report Float} {observed : List (Observation Float)}
    (hlabel : r'.label = r.label) (hnames : r'.names.Perm r.names) (h : r.Records observed)
    (h' : r'.Records observed) : r'.tsv = r.tsv := by
  have hheader : r'.columns.map Prod.fst = r.columns.map Prod.fst := by
    rw [r.columns_fst (r.names.map fun _ => 0), r'.columns_fst (r'.names.map fun _ => 0),
      cells_eq_of_perm hlabel hnames]
  have hrows : r'.rows.toList.map (tsvRow r'.columns) = r.rows.toList.map (tsvRow r.columns) := by
    rw [h, h', List.map_map, List.map_map]
    refine List.map_congr_left fun o _ => ?_
    show tsvRow r'.columns (o.1, r'.names.map o.2) = tsvRow r.columns (o.1, r.names.map o.2)
    rw [tsvRow_eq, tsvRow_eq]
    simp only [cells_eq_of_perm hlabel hnames]
  show tsvLine ("time" :: r'.columns.map Prod.fst) ++
      String.join (r'.rows.toList.map (tsvRow r'.columns)) = _
  rw [hheader, hrows]
  rfl

end StockFlow.Report
