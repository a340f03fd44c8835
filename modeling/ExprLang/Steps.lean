import ExprLang.Failure
import ExprLang.Token

/-!
The steps that constructs are written with. A monad that has them can look at the current token,
pass it and fail; what a construct expects of a token is put together from these.
-/
namespace ExprLang

universe u

class Steps (m : Type → Type u) where
  current : m Token
  /-- The current token, which is passed. -/
  advance : m Token
  /-- Where the token before the current one ends. -/
  lastEnd : m Position
  fail {α : Type} (failure : Failure) : m α

namespace Steps

variable {m : Type → Type u} [Monad m] [Steps m] {α : Type}

/-- Fails for a cause that the current token gives. -/
def refuse (cause : String → Failure.Cause) : m α := do
  let token ← current
  fail ⟨cause token.value, token.span.start⟩

/-- Fails as the current token is not what the message asks for. -/
def misplaced (message : String) : m α := refuse fun token => .misplaced token message

/-- Goes one way at a token of the kind and the other way at all others. -/
def ifAt (kind : Token.Kind) (yes no : m α) : m α := do
  let token ← current
  if token.kind = kind then yes else no

/-- Passes a token of the kind. -/
def expect (kind : Token.Kind) : m Token := ifAt kind advance (refuse .unexpected)

/-- Passes a token of the kind, which the message asks for. -/
def expectFor (kind : Token.Kind) (message : String) : m Token :=
  ifAt kind advance (misplaced message)

/-- A value that depends on the current token, or its failure; the token stays. -/
def inspect (f : Token → Except Failure α) : m α := do
  let token ← current
  match f token with
  | .ok value => pure value
  | .error failure => fail failure

/-- Insists on a value, which the message asks for. -/
def required (p : m (Option α)) (message : String) : m α := do
  match ← p with
  | some value => pure value
  | none => misplaced message

end Steps

end ExprLang
