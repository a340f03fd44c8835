import ExprLang.Body
import ExprLang.Parse

/-!
The constructs of the language, each as a parse. What a construct holds are expressions
again; the parse of these is its argument `inner`, so that the only recursion between
constructs is the one that ties them together in `expression`. Lists, chains of operators
and chains of conditionals repeat by a budget of their own.

A budget above the number of remaining tokens is always enough, since a token is passed
before every nested expression and in every round of a repetition.
-/
namespace ExprLang.Construct

open Parse (spent)
open Steps (required)

def number : Parse Node := Body.number

def arguments (inner : Parse (Option Node)) : Nat → Parse (List (String × Node))
  | 0 => spent
  | budget + 1 => Body.arguments (required inner) (arguments inner budget)

def named (inner : Parse (Option Node)) (budget : Nat) : Parse Node :=
  Body.named (arguments inner budget)

def parenthesised (inner : Parse (Option Node)) : Parse Node := Body.parenthesised (required inner)

def branch (inner : Parse (Option Node)) : Parse Node := Body.branch (required inner)

def conditional (inner : Parse (Option Node)) : Nat → Parse Node
  | 0 => spent
  | budget + 1 => Body.conditional (required inner) (branch inner) (conditional inner budget)

def parameter : Parse Parameter := Body.parameter

def parameters : Nat → Parse (List Parameter)
  | 0 => spent
  | budget + 1 => Body.parameters parameter (parameters budget)

def definition (inner : Parse (Option Node)) (budget : Nat) : Parse Node :=
  Body.definition (parameters budget) (required inner)

def returning (inner : Parse (Option Node)) : Parse Node := Body.returning inner

def primary (inner : Parse (Option Node)) (budget : Nat) : Parse (Option Node) :=
  Body.primary (named inner budget) number (parenthesised inner) (definition inner budget)
    (returning inner) (conditional inner budget)

def operators (operand : Parse (Option Node)) : Nat → Int → Node → Parse Node
  | 0 => fun _ _ => spent
  | budget + 1 => Body.operators operand (operators operand budget)

/-- The right operand of an operator, which the tighter operators behind it extend. -/
def rightOperand (operand : Parse (Option Node)) (budget : Nat) (op : Operator) : Parse Node :=
  Body.rightOperand operand (operators operand budget) op

/-- An operand and the operators after it. -/
def chain (inner : Parse (Option Node)) (budget : Nat) : Parse (Option Node) :=
  Body.chain (primary inner budget) (operators (primary inner budget) budget)

def expression : Nat → Parse (Option Node)
  | 0 => spent
  | budget + 1 => chain (expression budget) (budget + 1)

def entry (inner : Parse (Option Node)) (budget : Nat) : Parse (Option Node) :=
  Body.entry (chain inner budget)

def unit (inner : Parse (Option Node)) (budget : Nat) : Parse (Option Node) :=
  Body.unit (definition inner budget) (entry inner budget)

def units (inner : Parse (Option Node)) : Nat → Parse (List Node)
  | 0 => spent
  | budget + 1 => Body.units (unit inner (budget + 1)) (units inner budget)

end ExprLang.Construct
