import ExprLang.Binary64
import ExprLang.Operator

/-!
Nodes are the trees that programs are read into. Every node has the span of the text that
it was read from.
-/
namespace ExprLang

inductive ValueType where
  | double
  | void
  deriving DecidableEq, Repr, Inhabited

namespace ValueType

def text : ValueType → String
  | .double => "Double"
  | .void => "Void"

/-- Every type name but that of no value is of a number. -/
def ofTypeName (name : String) : ValueType :=
  if name = "Void" then .void else .double

end ValueType

/-- A parameter is labelled at the call and named in the body. -/
structure Parameter where
  label : String
  name : String
  deriving DecidableEq, Repr, Inhabited

inductive Node where
  | number (value : Binary64) (span : Span)
  | reference (name : String) (span : Span)
  | binary (op : Operator) (lhs rhs : Node) (span : Span)
  | function (name : String) (parameters : List Parameter) (returns : ValueType) (body : Node)
      (isEntry : Bool) (span : Span)
  | call (callee : String) (arguments : List (String × Node)) (span : Span)
  | conditional (condition consequence : Node) (alternative : Option Node) (span : Span)
  | returned (body : Option Node) (span : Span)
  deriving Repr, Inhabited

namespace Node

/-- The name of the function that a bare expression becomes the body of. -/
def entryName : String := "main"

def span : Node → Span
  | .number _ span | .reference _ span | .binary _ _ _ span | .function _ _ _ _ _ span
  | .call _ _ span | .conditional _ _ _ span | .returned _ span => span

/-- The function that a bare expression at the top of a program stands for. -/
def entry (body : Node) : Node := .function entryName [] .double body true body.span

mutual

/-- Equality of trees: all parts count, spans too, and numbers are compared as numbers. -/
def same : Node → Node → Bool
  | .number x s, .number y t => x.same y && s == t
  | .reference a s, .reference b t => a == b && s == t
  | .binary o a b s, .binary p c d t => o == p && same a c && same b d && s == t
  | .function f ps r a e s, .function g qs q b d t =>
    f == g && ps == qs && r == q && same a b && e == d && s == t
  | .call f as s, .call g bs t => f == g && sameArguments as bs && s == t
  | .conditional a b none s, .conditional c d none t => same a c && same b d && s == t
  | .conditional a b (some e) s, .conditional c d (some f) t =>
    same a c && same b d && same e f && s == t
  | .returned none s, .returned none t => s == t
  | .returned (some a) s, .returned (some b) t => same a b && s == t
  | _, _ => false

def sameArguments : List (String × Node) → List (String × Node) → Bool
  | [], [] => true
  | (k, a) :: as, (l, b) :: bs => k == l && same a b && sameArguments as bs
  | _, _ => false

end

instance : BEq Node := ⟨same⟩

end Node

end ExprLang
