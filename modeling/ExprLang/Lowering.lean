import ExprLang.Failure

/-!
What lowering yields, apart from any code generator: a number, a function or nothing, the
failures of the builder that makes the code, and what is done after a failure.
-/
namespace ExprLang

/-- What a node is lowered to, for the numbers and functions of a code generator. -/
inductive Lowered (ν φ : Type) where
  | number (value : ν)
  | function (value : φ)
  | nothing

namespace Lowered

variable {ν φ : Type}

def typeName : Lowered ν φ → String
  | .number _ => "Double"
  | .function _ => "Function"
  | .nothing => "Void"

/-- The number, where one is needed for the text of the span. -/
def toNumber (x : Lowered ν φ) (span : Span) : Except Failure ν :=
  match x with
  | .number value => .ok value
  | other => .error ⟨.mismatchedTypes "Double" other.typeName, span.start⟩

end Lowered

/-- Why the builder refused an instruction. -/
inductive BuilderFailure where
  | unsetPosition
  | alignment (reason : String)
  | extractOutOfRange
  | bitWidth (reason : String)
  | pointeeMismatch (reason : String)
  | valueMismatch (reason : String)
  | ordering (reason : String)
  | elementPointee
  | elementIndex
  deriving DecidableEq, Repr

namespace BuilderFailure

def text : BuilderFailure → String
  | .unsetPosition => "UnsetPosition"
  | .alignment reason => "AlignmentError(" ++ Text.quoted reason ++ ")"
  | .extractOutOfRange => "ExtractOutOfRange"
  | .bitWidth reason => "BitwidthError(" ++ Text.quoted reason ++ ")"
  | .pointeeMismatch reason => "PointeeTypeMismatch(" ++ Text.quoted reason ++ ")"
  | .valueMismatch reason => "ValueTypeMismatch(" ++ Text.quoted reason ++ ")"
  | .ordering reason => "OrderingError(" ++ Text.quoted reason ++ ")"
  | .elementPointee => "GEPPointee"
  | .elementIndex => "GEPIndex"

/-- The failure of a program at the span for which the instruction was built. -/
def locate {α : Type} (result : Except BuilderFailure α) (span : Span) : Except Failure α :=
  result.mapError fun failure => ⟨.builderFailed failure.text, span.start⟩

end BuilderFailure

/-- What is done when a unit of a program cannot be lowered. -/
inductive FailurePolicy where
  | abort
  | skipUnit
  deriving DecidableEq, Repr, Inhabited

def FailurePolicy.text : FailurePolicy → String
  | .abort => "Abort"
  | .skipUnit => "SkipUnit"

end ExprLang
