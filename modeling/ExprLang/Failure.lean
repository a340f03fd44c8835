import ExprLang.Position
import ExprLang.Text.Quoted

/-!
A failure is a cause and the position where it arose. The cause decides the name, the kind
and the wording of the message, and the tip that is given with it.
-/
namespace ExprLang

namespace Failure

/-- What went wrong. The first four arise while a program is read, the others only once
its trees are lowered; `unsupported` does both. -/
inductive Cause where
  | unrecognised (text : String)
  | unexpected (token : String)
  | misplaced (token message : String)
  | malformedNumber (token : String)
  | undeclaredVariable (name : String)
  | undeclaredFunction (name : String)
  | redeclaredFunction (name : String)
  | surplusArguments (expected received : Nat)
  | missingArguments (expected received : Nat)
  | mismatchedTypes (expected received : String)
  | unsupported (construct : String)
  | builderFailed (message : String)
  | unverifiedFunction (name : String)
  | executionFailed (message : String)
  deriving DecidableEq, Repr, Inhabited

inductive Kind where
  | syntactic
  | unresolvedIdentifier
  | undefinedFunction
  | unimplemented
  | semantic
  | backend
  deriving DecidableEq, Repr

namespace Cause

def name : Cause → String
  | .unrecognised _ => "UnrecognisedToken"
  | .unexpected _ => "UnexpectedToken"
  | .misplaced _ _ => "UnexpectedTokenDetailed"
  | .malformedNumber _ => "NumberParseError"
  | .undeclaredVariable _ => "VariableNotDeclared"
  | .undeclaredFunction _ => "FunctionNotDeclared"
  | .redeclaredFunction _ => "FunctionAlreadyDeclared"
  | .surplusArguments _ _ => "UnexpectedArguments"
  | .missingArguments _ _ => "MissingArguments"
  | .mismatchedTypes _ _ => "TypeMatchError"
  | .unsupported _ => "NotImplementedError"
  | .builderFailed _ => "BuilderError"
  | .unverifiedFunction _ => "FunctionVerificationFailed"
  | .executionFailed _ => "ExecutionError"

def kind : Cause → Kind
  | .unrecognised _ | .unexpected _ | .misplaced _ _ | .malformedNumber _ => .syntactic
  | .undeclaredVariable _ => .unresolvedIdentifier
  | .undeclaredFunction _ => .undefinedFunction
  | .redeclaredFunction _ | .surplusArguments _ _ | .missingArguments _ _
  | .mismatchedTypes _ _ => .semantic
  | .unsupported _ => .unimplemented
  | .builderFailed _ | .unverifiedFunction _ | .executionFailed _ => .backend

def message : Cause → String
  | .unrecognised text => "unrecognised token: " ++ Text.quoted text
  | .unexpected token => "unexpected token: " ++ Text.quoted token
  | .misplaced token message =>
    "unexpected token (" ++ Text.quoted message ++ "): " ++ Text.quoted token
  | .malformedNumber token => "error parsing number: " ++ Text.quoted token
  | .undeclaredVariable name => "variable " ++ Text.quoted name ++ " not declared"
  | .undeclaredFunction name => "function " ++ Text.quoted name ++ " not declared"
  | .redeclaredFunction name => "function " ++ Text.quoted name ++ " already declared"
  | .surplusArguments expected received =>
    "unexpected arguments: expected " ++ expected.repr ++ ", received " ++ received.repr
  | .missingArguments expected received =>
    "missing arguments: expected " ++ expected.repr ++ ", received " ++ received.repr
  | .mismatchedTypes expected received =>
    "types do not match: expected " ++ Text.quoted expected ++ ", received " ++
      Text.quoted received
  | .unsupported construct => "not implemented: " ++ construct
  | .builderFailed message => "llvm builder error: " ++ message
  | .unverifiedFunction name => "function " ++ Text.quoted name ++ " failed verification"
  | .executionFailed message => "execution error: " ++ message

def tip? : Cause → Option String
  | .unrecognised _ => none
  | .unexpected token => some ("Unexpected token: `" ++ token ++ "`")
  | .misplaced token message => some ("Unexpected token: `" ++ token ++ "`, " ++ message)
  | .malformedNumber token => some ("Invalid number: `" ++ token ++ "`")
  | .undeclaredVariable name => some ("Variable `" ++ name ++ "` not declared")
  | .undeclaredFunction name =>
    some ("Function `" ++ name ++
      "` not declared, functions must be defined before they are called")
  | .redeclaredFunction name => some ("Function `" ++ name ++ "` already declared")
  | .surplusArguments expected received | .missingArguments expected received =>
    some ("Expected " ++ expected.repr ++ " arguments, received " ++ received.repr)
  | .mismatchedTypes expected received =>
    some ("Expected type `" ++ expected ++ "`, received `" ++ received ++ "`")
  | .unsupported construct =>
    some ("`" ++ construct ++ "` is accepted by the grammar but cannot be lowered")
  | .builderFailed message | .executionFailed message => some message
  | .unverifiedFunction name => some ("LLVM rejected the generated body of `" ++ name ++ "`")

end Cause

/-- The text of a tip, empty where there is none. -/
def tipText (tip : Option String) : String := tip.getD ""

end Failure

structure Failure where
  cause : Failure.Cause
  position : Position
  deriving DecidableEq, Repr, Inhabited

namespace Failure

def message (f : Failure) : String :=
  f.cause.message ++ " at " ++ f.position.file ++ ":" ++ f.position.offset.toNat.repr

end Failure

end ExprLang
