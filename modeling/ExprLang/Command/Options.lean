/-!
Command-line options. Arguments are taken from the left and the first one that is wrong, or
that asks for help, ends the reading. An option with a value takes it from behind an equals
sign or from the next argument, which must not look like an option. Everything may be given
once. After `--` there are no more options.
-/
namespace ExprLang.Command

/-- What is printed of a program. -/
inductive Emit where
  | tree
  | code
  deriving DecidableEq, Repr

inductive Flag where
  | run
  | keepGoing
  | timings
  deriving DecidableEq, Repr

inductive Setting where
  | emit
  | output
  deriving DecidableEq, Repr

/-- Why there are no options to act on. -/
inductive Refusal where
  | help
  | usage
  deriving DecidableEq, Repr

structure Options where
  file : String
  emit : Emit
  output : Option String
  flags : List Flag
  deriving DecidableEq, Repr

/-- An argument by its look. -/
inductive Argument where
  | plain (text : String)
  | short (letter : Char)
  | long (name : String) (value : Option String)
  | escape
  deriving DecidableEq, Repr

def Argument.ofString (arg : String) : Argument :=
  match arg.toList with
  | ['-', '-'] => .escape
  | '-' :: '-' :: rest =>
    let name := String.ofList (rest.takeWhile (· ≠ '='))
    match rest.dropWhile (· ≠ '=') with
    | [] => .long name none
    | _ :: value => .long name (some (String.ofList value))
  | '-' :: letter :: _ => .short letter
  | _ => .plain arg

/-- What has been given so far. -/
structure Given where
  file : Option String := none
  emit : Option Emit := none
  output : Option String := none
  flags : List Flag := []
  deriving DecidableEq, Repr

namespace Given

def setFile (given : Given) (file : String) : Except Refusal Given :=
  if given.file.isSome ∨ file = "" then .error .usage
  else .ok { given with file := some file }

def setEmit (given : Given) (value : String) : Except Refusal Given :=
  if given.emit.isSome then .error .usage
  else if value = "ast" then .ok { given with emit := some .tree }
  else if value = "ir" then .ok { given with emit := some .code }
  else .error .usage

def setOutput (given : Given) (path : String) : Except Refusal Given :=
  if given.output.isSome ∨ path = "" then .error .usage
  else .ok { given with output := some path }

def set (given : Given) : Setting → String → Except Refusal Given
  | .emit, value => given.setEmit value
  | .output, value => given.setOutput value

def setFlag (given : Given) (flag : Flag) : Except Refusal Given :=
  if flag ∈ given.flags then .error .usage
  else .ok { given with flags := given.flags ++ [flag] }

end Given

def flags : List (String × Flag) :=
  [("run", .run), ("keep-going", .keepGoing), ("timings", .timings)]

def settings : List (String × Setting) := [("emit", .emit), ("output", .output)]

/-- Reads the arguments; the pending setting, if any, still waits for its value. -/
def readArguments (given : Given) (pending : Option Setting) : List String → Except Refusal Given
  | [] => if pending.isSome then .error .usage else .ok given
  | arg :: rest =>
    match pending, Argument.ofString arg with
    | some setting, .plain value => do
      let given ← given.set setting value
      readArguments given none rest
    | some _, _ => .error .usage
    | none, .plain file => do
      let given ← given.setFile file
      readArguments given none rest
    | none, .short letter => .error (if letter = 'h' then .help else .usage)
    | none, .escape => rest.foldlM Given.setFile given
    | none, .long name value =>
      match flags.lookup name, settings.lookup name, value with
      | some flag, _, none => do
        let given ← given.setFlag flag
        readArguments given none rest
      | _, some setting, some value => do
        let given ← given.set setting value
        readArguments given none rest
      | _, some setting, none => readArguments given (some setting) rest
      | _, _, _ => .error (if name = "help" ∧ value = none then .help else .usage)

def Options.ofArguments (args : List String) : Except Refusal Options := do
  let given ← readArguments {} none args
  match given.file with
  | none => .error .usage
  | some file => .ok ⟨file, given.emit.getD .code, given.output, given.flags⟩

end ExprLang.Command
