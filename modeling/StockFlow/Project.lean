import StockFlow.Engine.Sim
import StockFlow.Equation.Synthesis
import StockFlow.Failure
import StockFlow.Grammar.Outline

/-!
# Projects

A project holds all models of a file, made ready to be computed. The first fault in any of them is a
fault of the whole file.

* `Project.ofFile` — the project of a file, and the warnings on the way
* `Project.instantiate` — a simulation of one of its models
-/

namespace StockFlow

/-- The models of a file. -/
structure Project where
  models : List (Model Float)

/-- A result and the warnings on the way to it. -/
structure Noted (α : Type) where
  warnings : List Warning
  result : Except ModelFault α

namespace Noted

variable {α β : Type}

/-- Goes on with a result, keeping the warnings. -/
def andThen (n : Noted α) (next : α → Noted β) : Noted β :=
  match n.result with
  | .error fault => ⟨n.warnings, .error fault⟩
  | .ok a => ⟨n.warnings ++ (next a).warnings, (next a).result⟩

/-- Does the same with each member of a list, until one fails. -/
def each (f : α → Noted β) : List α → Noted (List β)
  | [] => ⟨[], .ok []⟩
  | a :: as => (f a).andThen fun b => (each f as).andThen fun bs => ⟨[], .ok (b :: bs)⟩

end Noted

/-- Looks at a definition. -/
def Definition.analyzed (d : Definition) : Noted Analysis := ⟨d.timespecWarnings, d.analyze⟩

/-- Makes a model ready to be computed. One without a time specification deserves a warning, unless
it is only there to be started from. -/
def Analysis.compiled (a : Analysis) : Noted (Model Float) :=
  match a.compile with
  | .error fault => ⟨[], .error fault⟩
  | .ok model =>
    let missing := model.timespec.isNone && !model.isInterface
    ⟨if missing then [.noTimespec model.name] else [], .ok model⟩

/-- Looks at all definitions of a file. -/
def File.analyze (file : File) : Except Failure (List Analysis) :=
  match file.unreadable? with
  | some failure => .error failure
  | none => do
    let definitions ← file.definitions.mapError .model
    (definitions.mapM Definition.analyze).mapError .model

namespace Project

/-- The project of some definitions. All are looked at before the first is made ready. -/
def ofDefinitions (definitions : List Definition) : Noted Project :=
  (Noted.each Definition.analyzed definitions).andThen fun analyses =>
    (Noted.each Analysis.compiled analyses).andThen fun models => ⟨[], .ok ⟨models⟩⟩

/-- **The project of a file,** and the warnings on the way. -/
def ofFile (file : File) : List Warning × Except Failure Project :=
  match file.unreadable? with
  | some failure => ([], .error failure)
  | none =>
    match file.definitions with
    | .error fault => ([], .error (.model fault))
    | .ok definitions =>
      let noted := ofDefinitions definitions
      (noted.warnings, noted.result.mapError .model)

/-- The project of a text. -/
def ofText (text : String) : Except Failure Project := (ofFile (File.parse text)).2

/-- The model of a name. -/
def model? (p : Project) (name : String) : Option (Model Float) :=
  p.models.find? fun m => m.name = name

/-- The model of a name, if it can be simulated. -/
def runnable (p : Project) (name : String) : Except ModelFault (Model Float) :=
  match p.model? name with
  | none => .error (.noModel name)
  | some m =>
    if m.isInterface then .error (.isInterface name)
    else if m.isAbstract then .error (.isAbstract name)
    else .ok m

/-- A simulation of a model over a given span of time. -/
def instantiateWith (p : Project) (id : SimId) (model label : String) (spec : Timespec Float) :
    Except ModelFault (Sim Float) := do
  let m ← p.runnable model
  let spec ← spec.check.mapError .timespec
  return .create id label m spec spec.saveEvery

/-- A simulation of a model over its own span of time. -/
def instantiate (p : Project) (id : SimId) (model label : String) :
    Except ModelFault (Sim Float) := do
  let m ← p.runnable model
  match m.timespec with
  | some spec => p.instantiateWith id model label spec
  | none => throw (.noTimespec model)

end Project

end StockFlow
