import StockFlow.Artifact.Model
import StockFlow.Equation.Notation
import StockFlow.Session

/-!
# The command line

The program reads a model text from a file or from standard input. It simulates one of the models
and reports what it computed, or prints the equations of all models.

* `Options.parse?` — the options of a command line
* `Options.answer` — what the program answers to the text it is given
-/

namespace StockFlow

/-- What a command line asks for. -/
structure Options where
  /-- The file of the model text; without one it is standard input. -/
  path : Option String
  /-- The model to simulate. -/
  model : String
  /-- The name under which its variables are reported; without one it is that of the model. -/
  label : Option String
  /-- Whether to print equations instead of simulating. -/
  equations : Bool
  /-- Whether to print the equations as JSON. -/
  json : Bool
  deriving DecidableEq, Repr

/-- Why there is no text to work on. -/
inductive SourceFault where
  | missing
  | notText
  | other (reason : String)
  deriving DecidableEq, Repr

/-- What is said about a text that is not there. -/
def SourceFault.message : SourceFault → String
  | missing => "No such file or directory (os error 2)"
  | notText => "stream did not contain valid UTF-8"
  | other reason => reason

/-- What the program writes and how it ends. -/
structure Outcome where
  status : Nat
  stdout : String
  stderr : String
  deriving DecidableEq, Repr

namespace Options

/-- What is asked for if nothing is said. -/
def standard : Options := ⟨none, "main", none, false, false⟩

/-- The value of an option that is written in one word with it: behind an equals sign for a long
option, directly or behind an equals sign for a short one. -/
def attached? (long short : String) (word : String) : Option String :=
  let behind (start : String) : Option String :=
    if start.toList.isPrefixOf word.toList then
      some (String.ofList (word.toList.drop start.length))
    else none
  behind (long ++ "=") <|> behind (short ++ "=") <|>
    match behind short with
    | some "" => none
    | rest => rest

/-- Whether a word can only be an option. A lone dash is none. -/
def isOption (word : String) : Bool := word.toList.head? = some '-' && word ≠ "-"

/-- Takes a word as the path of the model text, of which there is one at most. -/
def setPath? (o : Options) (word : String) : Option Options :=
  if o.path.isSome then none else some { o with path := some word }

/-- The options of a command line on top of those read before; `none` if it is not well formed.
Behind two dashes every word is a path. -/
def parseFrom? (o : Options) : List String → Option Options
  | [] => some o
  | word :: rest =>
    if word = "--equations" then parseFrom? { o with equations := true } rest
    else if word = "--json" then parseFrom? { o with json := true } rest
    else if word = "-m" || word = "--model" then
      match rest with
      | value :: rest => if isOption value then none else parseFrom? { o with model := value } rest
      | [] => none
    else if word = "-i" || word = "--instance" then
      match rest with
      | value :: rest =>
        if isOption value then none else parseFrom? { o with label := some value } rest
      | [] => none
    else if word = "--" then rest.foldlM setPath? o
    else
      match attached? "--model" "-m" word, attached? "--instance" "-i" word with
      | some value, _ => parseFrom? { o with model := value } rest
      | none, some value => parseFrom? { o with label := some value } rest
      | none, none =>
        if isOption word then none
        else (o.setPath? word).bind fun o => parseFrom? o rest

/-- The options of a command line. -/
def parse? (args : List String) : Option Options := parseFrom? standard args

/-- The name of the source in messages. -/
def source (o : Options) : String := o.path.getD "<stdin>"

/-! ## Answers -/

/-- Lines, each with its end. -/
def lines (ls : List String) : String := String.join (ls.map fun l => l ++ "\n")

/-- The answer to a command line that is not well formed. -/
def usage : Outcome :=
  ⟨2, "", "usage: stockflow [--model NAME] [--instance NAME] [--equations] [--json] [PATH]\n"⟩

/-- The answer when the text cannot be read. -/
def unreadableSource (fault : SourceFault) : Outcome :=
  ⟨1, "", s!"error: reading input: {fault.message}\n"⟩

/-- The answer to a text with errors: each with the line it is on, and how many there are. -/
def refuse (o : Options) (text : String) (errors : List SyntaxError) : Outcome :=
  ⟨1, "", lines (errors.map fun e => e.render o.source text)
    ++ s!"{o.source}: {errors.length} syntax error(s)\n"⟩

/-- The answer when something cannot be done. -/
def fail (o : Options) (stderr : String) (f : Failure) : Outcome :=
  ⟨1, "", stderr ++ s!"{o.source}: {f.render}\n"⟩

/-- The equations of a model. -/
def modelText (o : Options) (m : Model Float) : String :=
  if o.json then m.artifact.pretty ++ "\n" else s!"model {m.name}\n" ++ m.equations.text

/-- Simulates the model asked for to its end; no answer if that takes more than `fuel` steps. -/
def simulate (o : Options) (fuel : Nat) (p : Project) : Option (Except Failure String) :=
  match p.instantiate 0 o.model (o.label.getD o.model) with
  | .error fault => some (.error (.model fault))
  | .ok sim =>
    (sim.runToEnd fuel .empty).map fun r =>
      match r.fault with
      | none => .ok r.sim.report.tsv
      | some fault => .error (.run fault)

/-- What the program does with a text. There is no answer if a simulation takes more than `fuel`
steps. -/
def execute (o : Options) (fuel : Nat) (text : String) : Option Outcome :=
  let file := File.parse text
  if !file.errors.isEmpty then some (o.refuse text file.errors)
  else
    let (warnings, project) := Project.ofFile file
    let stderr := lines (warnings.map Warning.message)
    match project with
    | .error f => some (o.fail stderr f)
    | .ok p =>
      if o.equations then some ⟨0, String.join (p.models.map o.modelText), stderr⟩
      else
        (o.simulate fuel p).map fun
          | .ok report => ⟨0, report, stderr⟩
          | .error f => o.fail stderr f

/-- **What the program answers to the text it is given,** or to not being given one. -/
def answer (o : Options) (fuel : Nat) : Except SourceFault String → Option Outcome
  | .error fault => some (unreadableSource fault)
  | .ok text => o.execute fuel text

end Options

end StockFlow
