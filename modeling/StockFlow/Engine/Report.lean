import StockFlow.Decimal.Notation

/-!
# Reports

A report holds the recorded states of a simulation: for each recorded time the value of each
recorded variable. The values of all rows lie in one array, one row behind the other, and each row
is as wide as there are variables.

* `Report.push` — adds a row
* `Report.rows` — the values cut into rows
* `Report.series` — all values of one variable
* `Report.tsv` — the report as a table, its columns in the order of their names
-/

namespace StockFlow

/-- The recorded states of a simulation. -/
structure Report (α : Type) where
  /-- The name of the simulation. -/
  label : String
  /-- The recorded variables. -/
  names : List String
  /-- How many values a row has. -/
  width : Nat
  /-- The recorded times. -/
  moments : Array α
  /-- The values of all rows, one row behind the other. -/
  data : Array α
  width_eq : width = names.length
  size_data : data.size = moments.size * width
  deriving Repr

namespace Report

variable {α : Type}

/-- A report without rows. -/
def empty (label : String) (names : List String) : Report α :=
  ⟨label, names, names.length, #[], #[], rfl, (Nat.zero_mul _).symm⟩

/-! ## Adding rows -/

theorem size_row {names : List String} {width : Nat} (h : width = names.length)
    (value : String → α) : (names.map value).toArray.size = width := by
  simp [h]

theorem size_data_append {width : Nat} {moments data : Array α}
    (h : data.size = moments.size * width) (time : α) (values : Vector α width) :
    (data ++ values.toArray).size = (moments.push time).size * width := by
  simp [h, Nat.succ_mul]

/-- Adds a row. -/
def append (r : Report α) (time : α) (values : Vector α r.width) : Report α :=
  { r with
    moments := r.moments.push time
    data := r.data ++ values.toArray
    size_data := size_data_append r.size_data time values }

/-- Adds a row of the values that the variables have. -/
def push (r : Report α) (time : α) (value : String → α) : Report α :=
  r.append time ⟨(r.names.map value).toArray, size_row r.width_eq value⟩

/-- Adds a row whose values are asked for, variable by variable. -/
def record {m : Type → Type} [Monad m] (r : Report α) (time : α) (value : String → m α) :
    m (Report α) := do
  let names : Vector String r.width := ⟨r.names.toArray, r.width_eq.symm⟩
  return r.append time (← names.mapM value)

/-! ## Rows and columns -/

/-- Cuts values into rows, one for each time. Where no values are left, rows are empty. -/
def cut (width : Nat) : List α → List α → List (α × List α)
  | [], _ => []
  | time :: times, values => (time, values.take width) :: cut width times (values.drop width)

/-- The rows: each recorded time with its values. -/
def rows (r : Report α) : Array (α × List α) :=
  (cut (max r.width 1) r.moments.toList r.data.toList).toArray

/-- The recorded times. -/
def times (r : Report α) : List α := r.moments.toList

/-- The column of a variable; where a name occurs twice, the later counts. -/
def column? (r : Report α) (name : String) : Option Nat :=
  r.names.zipIdx.reverse.lookup name

/-- All values of a variable. -/
def series (r : Report α) (name : String) : Option (List α) :=
  (r.column? name).map fun i => r.rows.toList.filterMap fun row => row.2[i]?

/-! ## As text -/

/-- The name of a column. -/
def qualified (r : Report α) (name : String) : String := r.label ++ "." ++ name

/-- The columns in the order of their names, each with its place in a row. -/
def columns (r : Report α) : List (String × Nat) :=
  (r.names.zipIdx.map fun (name, i) => (r.qualified name, i)).mergeSort fun a b =>
    decide (a.1 ≤ b.1)

/-- Cells with tabs between them. -/
def tsvLine (cells : List String) : String := "\t".intercalate cells ++ "\n"

/-- A row with its cells in the order of the columns. -/
def tsvRow (columns : List (String × Nat)) (row : Float × List Float) : String :=
  tsvLine (Decimal.fixed row.1 :: columns.map fun c => ((row.2[c.2]?).map Decimal.fixed).getD "")

/-- The report as a table: a line of names and a line for each row. -/
def tsv (r : Report Float) : String :=
  let columns := r.columns
  tsvLine ("time" :: columns.map Prod.fst) ++ String.join (r.rows.toList.map (tsvRow columns))

end Report

end StockFlow
