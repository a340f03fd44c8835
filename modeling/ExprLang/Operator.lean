import ExprLang.Failure
import ExprLang.Token

/-!
Binary operators and how tightly they bind. The scanner knows more operator symbols than
there are operators: a token with another symbol is a failure, not the end of an expression.
-/
namespace ExprLang

inductive Operator where
  | add
  | sub
  | mul
  | div
  | lessThan
  deriving DecidableEq, Repr, Inhabited

namespace Operator

def all : List Operator := [.add, .sub, .mul, .div, .lessThan]

def symbol : Operator → String
  | .add => "+"
  | .sub => "-"
  | .mul => "*"
  | .div => "/"
  | .lessThan => "<"

def ofSymbol? (symbol : String) : Option Operator := all.find? fun op => op.symbol == symbol

theorem ofSymbol?_symbol (op : Operator) : ofSymbol? op.symbol = some op := by
  cases op <;> decide

theorem symbol_of_ofSymbol? {symbol : String} {op : Operator} (h : ofSymbol? symbol = some op) :
    op.symbol = symbol := by
  simpa using List.find?_some h

inductive Tier where
  | relational
  | additive
  | multiplicative
  deriving DecidableEq, Repr

/-- Higher tiers bind tighter. -/
def Tier.power : Tier → Int
  | .relational => 10
  | .additive => 20
  | .multiplicative => 40

def tier : Operator → Tier
  | .add | .sub => .additive
  | .mul | .div => .multiplicative
  | .lessThan => .relational

def power (op : Operator) : Int := op.tier.power

end Operator

namespace Token

/-- The operator that the token is; none if it is a token of another kind. -/
def operator (t : Token) : Except Failure (Option Operator) :=
  if t.kind = .operator then
    match Operator.ofSymbol? t.value with
    | some op => .ok (some op)
    | none => .error ⟨.unsupported ("operator `" ++ t.value ++ "`"), t.span.start⟩
  else
    .ok none

theorem kind_of_operator {t : Token} {op : Operator} (h : t.operator = .ok (some op)) :
    t.kind = .operator := by
  unfold operator at h
  split at h
  · assumption
  · simp at h

/-- How tightly the token binds, which is below every operator if it is none. -/
def precedence (t : Token) : Except Failure Int :=
  t.operator.map fun op? => (op?.map Operator.power).getD (-1)

end Token

end ExprLang
