import StockFlow.CommandLine

/-!
# The program

Reads the command line and the model text, and writes what `Options.answer` says.
-/

namespace StockFlow

/-- More steps than a simulation can make in practice. -/
def stepLimit : Nat := 0x4000000000000000

/-- The model text: of the file that is asked for, or of standard input. -/
def Options.readSource (o : Options) : IO (Except SourceFault String) := do
  try
    let bytes ← match o.path with
      | some path => IO.FS.readBinFile path
      | none => (← IO.getStdin).readBinToEnd
    match String.fromUTF8? bytes with
    | some text => return .ok text
    | none => return .error .notText
  catch
    | .noFileOrDirectory _ _ _ => return .error .missing
    | e => return .error (.other (toString e))

/-- Writes an outcome; the answer is the exit code. -/
def Outcome.write (outcome : Outcome) : IO UInt32 := do
  (← IO.getStdout).putStr outcome.stdout
  (← IO.getStderr).putStr outcome.stderr
  return outcome.status.toUInt32

end StockFlow

open StockFlow in
/-- Does what the command line asks for. -/
def main (args : List String) : IO UInt32 := do
  match Options.parse? args with
  | none => Options.usage.write
  | some options =>
    match options.answer stepLimit (← options.readSource) with
    | some outcome => outcome.write
    | none => throw (IO.userError "the simulation takes too many steps")
