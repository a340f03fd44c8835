import ExprLang.Binary64.Literal
import ExprLang.Node
import ExprLang.Operator
import ExprLang.Steps

/-!
The bodies of the constructs. A body is what a construct does itself; the other constructs that it
calls for are its arguments, and so is its next round if it repeats. Bodies are written once for
all monads that have the steps, so that what they do can be run and can be looked at.
-/
namespace ExprLang.Body

open Steps

universe u

variable {m : Type → Type u} [Monad m] [Steps m]

def number : m Node := do
  let token ← current
  if token.kind = .integer ∨ token.kind = .float then
    match Binary64.read? token.value with
    | some value =>
      let _ ← advance
      pure (.number value token.span)
    | none => refuse .malformedNumber
  else
    misplaced "any number is expected"

/-- Arguments up to the closing parenthesis, which stays. A comma may follow the last. -/
def arguments (nested : String → m Node) (more : m (List (String × Node))) :
    m (List (String × Node)) :=
  ifAt .closeParen (pure []) do
    let label ← expectFor .identifier "expected an argument label"
    let _ ← expectFor .colon "expected `:` after the argument label"
    let value ← nested "expected an argument value"
    let rest ← ifAt .comma (do let _ ← advance; more) (pure [])
    pure ((label.value, value) :: rest)

/-- What follows the name in a call, from the opening parenthesis on. -/
def call (arguments : m (List (String × Node))) (name : Token) : m Node := do
  let _ ← advance
  let values ← arguments
  let close ← expectFor .closeParen "expected `)` to close the argument list"
  pure (.call name.value values (name.span.join close.span))

/-- A reference, or a call if a parenthesis follows the name. -/
def named (arguments : m (List (String × Node))) : m Node := do
  let name ← expectFor .identifier "any identifier is expected"
  ifAt .openParen (call arguments name) (pure (.reference name.value name.span))

/-- An expression between parentheses, which leave no trace in its tree. -/
def parenthesised (nested : String → m Node) : m Node := do
  let _ ← expect .openParen
  let node ← nested "expected an expression after `(`"
  let _ ← expectFor .closeParen "expected `)`"
  pure node

def branch (nested : String → m Node) : m Node := do
  let _ ← expectFor .openCurly "expected `\x7b` to open the branch"
  let node ← nested "expected an expression in the branch"
  let _ ← expectFor .closeCurly "expected `\x7d` to close the branch"
  pure node

/-- What follows `else`, if that is there: another conditional or a branch. -/
def alternative (branch another : m Node) : m (Option Node) :=
  ifAt .elseWord (do let _ ← advance; some <$> ifAt .ifWord another branch) (pure none)

/-- A conditional; another one may follow `else` without braces. -/
def conditional (nested : String → m Node) (branch another : m Node) : m Node := do
  let opening ← expect .ifWord
  let condition ← nested "expected a condition after `if`"
  let consequence ← branch
  let alternative ← alternative branch another
  let stop ← lastEnd
  pure (.conditional condition consequence alternative ⟨opening.span.start, stop⟩)

/-- A parameter with its type, whatever that is. It is labelled as it is named. -/
def parameter : m Parameter := do
  let name ← expectFor .identifier "expected function argument"
  let _ ← expectFor .colon "expected colon"
  let _ ← expectFor .identifier "expected type label"
  pure ⟨name.value, name.value⟩

/-- Parameters up to the closing parenthesis, which stays. A comma may follow the last. -/
def parameters (parameter : m Parameter) (more : m (List Parameter)) : m (List Parameter) :=
  ifAt .closeParen (pure []) do
    let first ← parameter
    let rest ← ifAt .comma (do let _ ← advance; more) (pure [])
    pure (first :: rest)

def definition (parameters : m (List Parameter)) (nested : String → m Node) : m Node := do
  let opening ← expectFor .funcWord "required func keyword"
  let name ← expectFor .identifier "expected function name"
  let _ ← expectFor .openParen "required left paren"
  let list ← parameters
  let _ ← expectFor .closeParen "required right paren"
  let _ ← expectFor .arrow "required right arrow"
  let typeName ← expectFor .identifier "require return type"
  let _ ← expectFor .openCurly "require left brace"
  let body ← nested "expected function body"
  let close ← expectFor .closeCurly "require right brace"
  pure (.function name.value list (.ofTypeName typeName.value) body false
    (opening.span.join close.span))

/-- A return; it has a value if the next token can start one. -/
def returning (expression : m (Option Node)) : m Node := do
  let opening ← expect .returnWord
  let token ← current
  let body ← (if token.kind.startsExpression then expression else pure none : m (Option Node))
  let stop ← lastEnd
  pure (.returned body ⟨opening.span.start, stop⟩)

/-- An operand; there is none at the end of the tokens. -/
def primary (named number parenthesised definition returning conditional : m Node) :
    m (Option Node) := do
  let token ← current
  match token.kind with
  | .identifier => some <$> named
  | .integer | .float => some <$> number
  | .openParen => some <$> parenthesised
  | .funcWord => some <$> definition
  | .returnWord => some <$> returning
  | .ifWord => some <$> conditional
  | .eof => pure none
  | _ => refuse .unexpected

/-- The operand that is due behind an operator. -/
def dueOperand (operand : m (Option Node)) (op : Operator) : m Node :=
  required operand ("expected an operand after `" ++ op.symbol ++ "`")

/-- An operand behind an operator; the next one takes it first if it binds tighter. -/
def extended (more : Int → Node → m Node) (op : Operator) (first : Node) : m Node := do
  let next ← inspect Token.precedence
  if op.power < next then more (op.power + 1) first else pure first

def rightOperand (operand : m (Option Node)) (more : Int → Node → m Node) (op : Operator) :
    m Node := do
  let first ← dueOperand operand op
  extended more op first

/-- The operators that bind at least as tightly as the threshold, with their right operands. -/
def operators (operand : m (Option Node)) (more : Int → Node → m Node) (threshold : Int)
    (lhs : Node) : m Node := do
  match ← inspect Token.operator with
  | none => pure lhs
  | some op =>
    if op.power < threshold then
      pure lhs
    else
      let _ ← advance
      let rhs ← rightOperand operand more op
      more threshold (.binary op lhs rhs (lhs.span.join rhs.span))

/-- An operand and the operators after it. -/
def chain (operand : m (Option Node)) (operators : Int → Node → m Node) : m (Option Node) := do
  match ← operand with
  | none => pure none
  | some lhs => some <$> operators 0 lhs

/-- A bare expression as a function of its own. -/
def entry (expression : m (Option Node)) : m (Option Node) := do
  let body ← expression
  pure (body.map Node.entry)

/-- A definition or a bare expression. -/
def unit (definition : m Node) (entry : m (Option Node)) : m (Option Node) :=
  ifAt .funcWord (some <$> definition) entry

/-- Units up to the end. -/
def units (unit : m (Option Node)) (more : m (List Node)) : m (List Node) :=
  ifAt .eof (pure []) do
    match ← unit with
    | none => pure []
    | some first =>
      let rest ← more
      pure (first :: rest)

end ExprLang.Body
