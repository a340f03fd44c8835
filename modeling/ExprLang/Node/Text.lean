import ExprLang.Binary64.Shortest
import ExprLang.Node

/-!
Node texts: a number or a reference is written as it is, every other node between
parentheses behind the word or symbol for what it is.
-/
namespace ExprLang.Node

mutual

def text : Node → String
  | .number value _ => value.text
  | .reference name _ => name
  | .binary op lhs rhs _ => "(" ++ op.symbol ++ " " ++ text lhs ++ " " ++ text rhs ++ ")"
  | .function name parameters returns body _ _ =>
    "(func " ++ name ++ " (" ++ " ".intercalate (parameters.map Parameter.name) ++ ") -> " ++
      returns.text ++ " " ++ text body ++ ")"
  | .call callee arguments _ => "(call " ++ callee ++ argumentsText arguments ++ ")"
  | .conditional condition consequence none _ =>
    "(if " ++ text condition ++ " " ++ text consequence ++ ")"
  | .conditional condition consequence (some alternative) _ =>
    "(if " ++ text condition ++ " " ++ text consequence ++ " " ++ text alternative ++ ")"
  | .returned none _ => "(return)"
  | .returned (some body) _ => "(return " ++ text body ++ ")"

def argumentsText : List (String × Node) → String
  | [] => ""
  | (label, value) :: rest => " (" ++ label ++ ": " ++ text value ++ ")" ++ argumentsText rest

end

end ExprLang.Node
