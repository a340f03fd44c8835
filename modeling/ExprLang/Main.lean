import ExprLang.Command
import ExprLang.Node.Text

/-!
The command line: reads the file that the arguments name and prints what the command says.
-/
namespace ExprLang.Command

def usageText : String :=
  "Usage: [--emit ast|ir] [--output PATH] [--run] [--keep-going] [--timings] FILE\n"

/-- The reason why a file could not be read. -/
def reasonOf (error : IO.Error) : String :=
  match error with
  | .noFileOrDirectory _ _ _ => Unreadable.missing.reason
  | .inappropriateType _ 21 _ => Unreadable.isDirectory.reason
  | .inappropriateType _ _ _ => Unreadable.notDirectory.reason
  | other => toString other

def readFile (path : String) : IO (Except String String) := do
  try
    let bytes ← IO.FS.readBinFile path
    match String.fromUTF8? bytes with
    | some text => pure (.ok text)
    | none => pure (.error Unreadable.notText.reason)
  catch error => pure (.error (reasonOf error))

/-- Prints how the command ended. The time of a stage is that of the command up to now. -/
def print (options : Options) (nanoseconds : Nat) (ending : Ending) : IO Unit := do
  let times (stages : List Stage) : IO Unit :=
    stages.forM fun stage => IO.print (stage.line (toString nanoseconds ++ "ns"))
  match ending with
  | .refused .help => IO.print usageText
  | .refused .usage => IO.eprint usageText
  | .failed stages report => do
    times stages
    IO.eprint report
  | .parsed stages units => do
    times stages
    if options.emit = .tree then units.forM fun unit => IO.println unit.text

end ExprLang.Command

open ExprLang Command in
def main (args : List String) : IO UInt32 := do
  let started ← IO.monoNanosNow
  let (options, ending) ← match Options.ofArguments args with
    | .error refusal => pure (⟨"", .code, none, []⟩, Ending.refused refusal)
    | .ok options =>
      match ← Command.readFile options.file with
      | .error reason => pure (options, Ending.failed [] (unreadableReport options.file reason))
      | .ok text => pure (options, compile options text)
  Command.print options ((← IO.monoNanosNow) - started) ending
  return UInt32.ofNat ending.status
