import StockFlow.Proofs.Decimal.Fixed
import StockFlow.Proofs.Engine.Report
import StockFlow.Proofs.Text.Bytes

/-!
# What is recorded and what a report says

* `Report.ofPushes` — the report of some observations, added one after the other
* `Report.columnNames` — the recorded names in the order of the columns
* `Report.table_join` — lines of cells are read back
* `Report.says_pushes` — a report says what was recorded
-/

namespace StockFlow.Report

variable {α : Type} {label : String} {names : List String}

/-! ## Observations that are added -/

/-- The report of some observations, added one after the other. -/
def ofPushes (label : String) (names : List String) (pushes : List (Observation α)) : Report α :=
  pushes.foldl (fun r o => r.push o.1 o.2) (.empty label names)

/-- What stays the same while observations are added, and the rows that they leave. -/
structure Holds (label : String) (names : List String) (pushes : List (Observation α))
    (r : Report α) : Prop where
  label : r.label = label
  names : r.names = names
  records : r.Records pushes

theorem Holds.push {r : Report α} {pushes : List (Observation α)} (h : Holds label names pushes r)
    (o : Observation α) : Holds label names (pushes ++ [o]) (r.push o.1 o.2) := by
  refine ⟨h.label, h.names, ?_⟩
  rw [Records, rows_push, Array.toList_push, h.records, List.map_append]
  rfl

theorem holds_ofPushes (label : String) (names : List String) (pushes : List (Observation α)) :
    Holds label names pushes (ofPushes label names pushes) := by
  induction pushes using List.reverseRecOn with
  | nil => exact ⟨rfl, rfl, rfl⟩
  | append_singleton pushes o ih =>
    rw [ofPushes, List.foldl_append]
    exact ih.push o

/-- Values that are only looked up are recorded as they are added. -/
theorem record_pure {m : Type → Type} [Monad m] [LawfulMonad m] (r : Report α) (time : α)
    (value : String → α) :
    r.record time (fun name => (pure (value name) : m α)) = pure (r.push time value) := by
  unfold record push
  simp

/-! ## The order of the columns -/

/-- The recorded names in the order of the columns. -/
def columnNames (r : Report α) : List String := r.columns.map fun c => r.names.getD c.2 ""

variable {r : Report α}

/-- A column is headed by the name whose values it has. -/
theorem exists_name_of_mem_columns {c : String × Nat} (h : c ∈ r.columns) :
    ∃ n, r.names[c.2]? = some n ∧ c.1 = r.qualified n := by
  obtain ⟨⟨n, i⟩, hn, rfl⟩ := List.mem_map.mp (r.columns_perm.mem_iff.mp h)
  exact ⟨n, List.mk_mem_zipIdx_iff_getElem?.mp hn, rfl⟩

theorem columnNames_perm (r : Report α) : r.columnNames.Perm r.names := by
  refine (r.columns_perm.map _).trans (List.Perm.of_eq ?_)
  rw [List.map_map]
  have hname : ∀ c ∈ r.names.zipIdx, r.names.getD c.2 "" = c.1 := by
    rintro ⟨n, i⟩ hc
    rw [List.getD_eq_getElem?_getD, List.mk_mem_zipIdx_iff_getElem?.mp hc, Option.getD_some]
  exact (List.map_congr_left hname).trans (List.zipIdx_map_fst ..)

theorem map_fst_columns (r : Report α) :
    r.columns.map Prod.fst = r.columnNames.map r.qualified := by
  rw [columnNames, List.map_map]
  refine List.map_congr_left fun c hc => ?_
  obtain ⟨n, hn, hqualified⟩ := exists_name_of_mem_columns hc
  rw [Function.comp_apply, List.getD_eq_getElem?_getD, hn, Option.getD_some, hqualified]

/-- **The heads of the columns are in strictly increasing order of their bytes.** -/
theorem columnNames_sorted (hnd : r.names.Nodup) :
    (r.columnNames.map r.qualified).Pairwise fun a b => Text.bytes a < Text.bytes b := by
  have hnodup : (r.columnNames.map r.qualified).Nodup :=
    (r.columnNames_perm.nodup_iff.mpr hnd).map fun _ _ => qualified_inj
  have hsorted : (r.columnNames.map r.qualified).Pairwise (· ≤ ·) := by
    rw [← map_fst_columns]
    exact List.pairwise_map.mpr r.columns_sorted
  refine hsorted.imp₂ ?_ hnodup
  intro a b hle hne
  exact Text.bytes_lt (String.not_le.mp fun hge => hne (String.le_antisymm hle hge))

/-- A row of observed values, in the order of the columns. -/
theorem map_columns_cell {β : Type} (r : Report α) (f : String → α) (g : α → β) (d : β) :
    r.columns.map (fun c => (((r.names.map f)[c.2]?).map g).getD d) =
      r.columnNames.map fun n => g (f n) := by
  rw [columnNames, List.map_map]
  refine List.map_congr_left fun c hc => ?_
  obtain ⟨n, hn, -⟩ := exists_name_of_mem_columns hc
  rw [Function.comp_apply, List.getD_eq_getElem?_getD, List.getElem?_map, hn]
  rfl

/-! ## Reading a table -/

/-- The cells of a text: what stands between newlines, cut at its tabs. -/
def table (text : String) : List (List String) :=
  (text.toList.splitOn '\n').map fun line => (line.splitOn '\t').map String.ofList

/-- A text that can stand in a cell. -/
def IsCell (s : String) : Prop := ∀ c ∈ s.toList, c ≠ '\t' ∧ c ≠ '\n'

instance (s : String) : Decidable (IsCell s) :=
  List.decidableBAll (fun c => c ≠ '\t' ∧ c ≠ '\n') s.toList

theorem IsCell.append {s s' : String} (h : IsCell s) (h' : IsCell s') : IsCell (s ++ s') := by
  unfold IsCell
  rw [String.toList_append]
  exact List.forall_mem_append.mpr ⟨h, h'⟩

theorem toList_tsvLine (cells : List String) : (tsvLine cells).toList =
    ['\t'].intercalate (cells.map String.toList) ++ ['\n'] := by
  rw [tsvLine, String.toList_append, String.toList_intercalate]
  rfl

/-- The cells of a line are what stands between its tabs. -/
theorem splitOn_line {cells : List String} (hne : cells ≠ []) (h : ∀ s ∈ cells, IsCell s) :
    ((['\t'].intercalate (cells.map String.toList)).splitOn '\t').map String.ofList = cells := by
  rw [List.splitOn_intercalate]
  · simp
  · intro l hl htab
    obtain ⟨s, hs, rfl⟩ := List.mem_map.mp hl
    exact (h s hs _ htab).1 rfl
  · simpa using hne

theorem newline_not_mem_line {cells : List String} (h : ∀ s ∈ cells, IsCell s) :
    '\n' ∉ ['\t'].intercalate (cells.map String.toList) := by
  have hcell : ∀ s ∈ cells, '\n' ∉ s.toList := fun s hs hmem => (h s hs _ hmem).2 rfl
  clear h
  induction cells with
  | nil => exact nofun
  | cons s cells ih =>
    obtain ⟨hs, hrest⟩ := List.forall_mem_cons.mp hcell
    cases cells with
    | nil => simpa using hs
    | cons s' cells =>
      rw [List.map_cons, List.map_cons, List.intercalate_cons_cons, List.mem_append,
        List.mem_append]
      rintro ((hmem | hmem) | hmem)
      · exact hs hmem
      · exact absurd (List.mem_singleton.mp hmem) (by decide)
      · exact ih hrest hmem

/-- **Lines of cells are read back,** and nothing is behind the last newline. -/
theorem table_join {lines : List (List String)} (hne : ∀ cells ∈ lines, cells ≠ [])
    (h : ∀ cells ∈ lines, ∀ s ∈ cells, IsCell s) :
    table (String.join (lines.map tsvLine)) = lines ++ [[""]] := by
  induction lines with
  | nil => rfl
  | cons cells lines ih =>
    obtain ⟨hcells, hlines⟩ := List.forall_mem_cons.mp h
    obtain ⟨hsome, hrest⟩ := List.forall_mem_cons.mp hne
    have htail := ih hrest hlines
    unfold table at htail ⊢
    rw [List.map_cons, String.join_cons, String.toList_append, toList_tsvLine, List.append_assoc,
      List.singleton_append, List.splitOn_append_cons_self_of_not_mem (newline_not_mem_line hcells),
      List.map_cons, splitOn_line hsome hcells, htail]
    rfl

/-! ## What a report says -/

/-- The lines of a report of some observations: its columns, and their values at each time. -/
def lines (r : Report Float) (pushes : List (Observation Float)) : List (List String) :=
  ("time" :: r.columnNames.map r.qualified) :: pushes.map fun o =>
    Decimal.fixed o.1 :: r.columnNames.map fun n => Decimal.fixed (o.2 n)

theorem tsv_eq_join {r : Report Float} {pushes : List (Observation Float)} (h : r.Records pushes) :
    r.tsv = String.join ((r.lines pushes).map tsvLine) := by
  have hrows : r.rows.toList.map (tsvRow r.columns) = pushes.map fun o =>
      tsvLine (Decimal.fixed o.1 :: r.columnNames.map fun n => Decimal.fixed (o.2 n)) := by
    rw [h, List.map_map]
    refine List.map_congr_left fun o _ => ?_
    rw [Function.comp_apply, tsvRow, map_columns_cell]
  rw [tsv, hrows, map_fst_columns, lines, List.map_cons, String.join_cons, List.map_map]
  rfl

/-- The cells of a report can be told apart if its names can stand in cells. -/
theorem table_tsv {r : Report Float} {pushes : List (Observation Float)} (h : r.Records pushes)
    (hlabel : IsCell r.label) (hnames : ∀ n ∈ r.names, IsCell n) :
    table r.tsv = r.lines pushes ++ [[""]] := by
  have hqualified : ∀ n ∈ r.columnNames, IsCell (r.qualified n) := fun n hn =>
    (hlabel.append (show IsCell "." by decide)).append
      (hnames n (r.columnNames_perm.mem_iff.mp hn))
  rw [tsv_eq_join h, table_join]
  · refine List.forall_mem_cons.mpr ⟨nofun, fun cells hcells => ?_⟩
    obtain ⟨o, _, rfl⟩ := List.mem_map.mp hcells
    exact nofun
  · refine List.forall_mem_cons.mpr
      ⟨List.forall_mem_cons.mpr ⟨by decide, ?_⟩, fun cells hcells => ?_⟩
    · intro s hs
      obtain ⟨n, hn, rfl⟩ := List.mem_map.mp hs
      exact hqualified n hn
    · obtain ⟨o, _, rfl⟩ := List.mem_map.mp hcells
      refine List.forall_mem_cons.mpr ⟨Decimal.fixed_clean _, fun s hs => ?_⟩
      obtain ⟨n, _, rfl⟩ := List.mem_map.mp hs
      exact Decimal.fixed_clean _

/-- **A report says what was recorded.** Its names are distinct, and neither they nor its label have
a tab or a newline in them. Then it holds a value for each time and name, its rows are the values
observed at each time, the series of a name are the values observed of it, and its text is a line
that names the columns, in strictly increasing order of their bytes, and a line for each
observation, whose cell in a column is the value of the name of the column. -/
theorem says_pushes (hnd : names.Nodup) (hlabel : IsCell label) (hnames : ∀ n ∈ names, IsCell n)
    (pushes : List (Observation Float)) :
    let r := ofPushes label names pushes
    r.data.size = r.times.length * names.length ∧
      r.data.toList = pushes.flatMap (fun o => names.map o.2) ∧
      r.rows.toList = pushes.map (fun o => (o.1, names.map o.2)) ∧
      (∀ n, r.series n = if n ∈ names then some (pushes.map fun o => o.2 n) else none) ∧
      ∃ order : List String, order.Perm names ∧
        ((order.map fun n => label ++ "." ++ n).Pairwise fun a b => Text.bytes a < Text.bytes b) ∧
        table r.tsv = ("time" :: order.map fun n => label ++ "." ++ n) ::
          (pushes.map fun o => Decimal.fixed o.1 :: order.map fun n => Decimal.fixed (o.2 n)) ++
            [[""]] := by
  intro r
  obtain ⟨hl, hn, hrecords⟩ : Holds label names pushes r := holds_ofPushes label names pushes
  clear_value r
  subst hl hn
  refine ⟨?size, ?data, hrecords, ?series, r.columnNames, r.columnNames_perm,
    columnNames_sorted hnd, table_tsv hrecords hlabel hnames⟩
  case size => rw [r.size_data, r.width_eq, times, Array.length_toList]
  case data => rw [data_eq, hrecords, List.flatMap_map]
  case series =>
    intro n
    split
    · next hmem => exact series_of_rows hnd hmem hrecords
    · next hmem => exact series_eq_none hmem

/-- A stock and its rate, recorded twice. -/
def stockAndRate : List (Observation Float) :=
  [(0, fun n => if n = "stock" then 100 else 5), (1, fun n => if n = "stock" then 105 else 5)]

theorem says_pushes_stockAndRate :
    let r := ofPushes "main" ["stock", "rate"] stockAndRate
    r.data.size = r.times.length * 2 ∧ r.series "rate" = some [5, 5] ∧ r.series "time" = none ∧
      ∃ order : List String, order.Perm ["stock", "rate"] ∧
        table r.tsv = ("time" :: order.map fun n => "main" ++ "." ++ n) ::
          (stockAndRate.map fun o =>
            Decimal.fixed o.1 :: order.map fun n => Decimal.fixed (o.2 n)) ++ [[""]] := by
  intro r
  obtain ⟨hsize, _, _, hseries, order, hperm, _, htable⟩ :=
    @says_pushes "main" ["stock", "rate"] (by decide) (by decide) (by decide) stockAndRate
  exact ⟨hsize, hseries "rate", hseries "time", order, hperm, htable⟩

end StockFlow.Report
