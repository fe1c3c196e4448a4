import StockFlow.Artifact.Json
import StockFlow.Equation.Model

/-!
# Models as JSON

A model ready to be computed, written down for other programs.

* `Model.artifact` — a model as JSON
-/

namespace StockFlow

open Artifact (Json)

/-- A value where there is one. -/
def Artifact.Json.opt (x : Option Json) : Json := x.getD .null

/-- Numbers as JSON. -/
def Artifact.Json.numbers (xs : List Float) : Json := .list (xs.map .number)

/-- The name of an operator in JSON. -/
def BinaryOp.artifactName : BinaryOp → String
  | .add => "add"
  | .sub => "sub"
  | .mul => "mul"
  | .div => "div"
  | .pow => "exp"

/-- A call as JSON: its function, and its argument or list of arguments if it takes any. -/
def Builtin.artifact (c : Builtin Json) : Json :=
  let name : String × Json := ("fn", .text c.name)
  match c with
  | .pi => .object [name]
  | .unary _ x => .object [name, ("args", x)]
  | .binary _ x y => .object [name, ("args", .list [x, y])]

/-- A formula as JSON: an object whose only member names the form of the formula. -/
def Formula.artifact : Formula Float → Json
  | .const x => .object [("const", .number x)]
  | .var name => .object [("var", .text name)]
  | .default name => .object [("default", .text name)]
  | .dt => .text "dt"
  | .negate x => .object [("op1", .list [.text "negative", x.artifact])]
  | .binary op l r => .object [("op2", .list [.text op.artifactName, l.artifact, r.artifact])]
  | .lookup table index => .object [("lookup", .list [.text table, index.artifact])]
  | .pi => .object [("app", Builtin.artifact .pi)]
  | .apply1 f x => .object [("app", Builtin.artifact (.unary f x.artifact))]
  | .apply2 f x y => .object [("app", Builtin.artifact (.binary f x.artifact y.artifact))]

/-- A rule as JSON. -/
def Rule.artifact (r : Rule Float) : Json :=
  .object [("ident", .text r.name), ("expr", r.formula.artifact)]

/-- A table as JSON. -/
def Table.artifact (t : Table Float) : Json :=
  .object [("x", .numbers t.xs.toList), ("y", .numbers t.ys.toList)]

/-- A variable as JSON. Its value and table are left out if it has none. -/
def Variable.artifact (v : Variable Float) : Json :=
  .object ([("name", .text v.name), ("kind", .text v.kind.name)]
    ++ (v.default.map fun x => ("default", .number x)).toList
    ++ (v.table.map fun t => ("table", t.artifact)).toList)

/-- A time specification as JSON. -/
def Timespec.artifact (spec : Timespec Float) : Json :=
  .object [("start", .number spec.start), ("end", .number spec.stop), ("dt", .number spec.dt),
    ("save_step", .number spec.saveStep)]

/-- The equations of a model as JSON. -/
def Equations.artifact (e : Equations Float) : Json :=
  .object [("initials", .list (e.initials.map Rule.artifact)),
    ("flows", .list (e.flows.map Rule.artifact)),
    ("stocks", .list (e.stocks.map Rule.artifact)),
    ("tables", .object (e.tables.toList.map fun (name, t) => (name, t.artifact)))]

/-- **A model as JSON.** -/
def Model.artifact (m : Model Float) : Json :=
  .object [("name", .text m.name), ("is_interface", .bool m.isInterface),
    ("is_abstract", .bool m.isAbstract), ("vars", .list (m.vars.map Variable.artifact)),
    ("defaults", .object (m.defaults.toList.map fun (name, x) => (name, .number x))),
    ("timespec", Json.opt (m.timespec.map Timespec.artifact)),
    ("equations", m.equations.artifact)]

end StockFlow
