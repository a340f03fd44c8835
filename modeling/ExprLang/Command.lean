import ExprLang.Command.Files
import ExprLang.Command.Options
import ExprLang.Program
import ExprLang.Report

/-!
The command reads one file and reports the first failure of its program. A program that
scans and parses is handed on as its trees.
-/
namespace ExprLang

namespace Command

/-- A stage whose time can be printed. -/
inductive Stage where
  | scanned
  | parsed
  deriving DecidableEq, Repr

/-- The line on the time that a stage took. -/
def Stage.line (stage : Stage) (time : String) : String :=
  (match stage with
    | .scanned => "Tokenized"
    | .parsed => "Parsed") ++ " in " ++ time ++ "\n"

/-- How the command ends: without a program to read, with the report on a failure, or with
the trees of the program. The stages are those whose times are to be printed. -/
inductive Ending where
  | refused (refusal : Refusal)
  | failed (stages : List Stage) (report : String)
  | parsed (stages : List Stage) (units : List Node)

def Ending.status : Ending → Nat
  | .refused .help => 0
  | .refused .usage => 2
  | .failed _ _ => 1
  | .parsed _ _ => 0

def unreadableReport (path reason : String) : String :=
  "Error reading file '" ++ path ++ "': " ++ reason ++ "\n"

/-- Reads the program of a text. -/
def compile (options : Options) (text : String) : Ending :=
  let file := fileName options.file
  let timed (stages : List Stage) := if .timings ∈ options.flags then stages else []
  match scan text file with
  | .error failure => .failed [] (Report.render failure text file)
  | .ok tokens =>
    match Program.ofTokens tokens file with
    | .error failure => .failed (timed [.scanned]) (Report.render failure text file)
    | .ok units => .parsed (timed [.scanned, .parsed]) units

/-- Runs the command with the arguments in a working directory. -/
def run (working : Entry) (args : List String) : Ending :=
  match Options.ofArguments args with
  | .error refusal => .refused refusal
  | .ok options =>
    match working.readText options.file with
    | .error why => .failed [] (unreadableReport options.file why.reason)
    | .ok text => compile options text

end Command

end ExprLang
