import ExprLang.Position

/-!
Tokens are the words, numbers, operators and marks of a program. Each has a kind, the text
it was read from and the span of that text. The end of a program is a token of its own.
-/
namespace ExprLang

namespace Token

inductive Kind where
  | eof
  | identifier
  | integer
  | float
  | operator
  | openParen
  | closeParen
  | openCurly
  | closeCurly
  | colon
  | comma
  | arrow
  | funcWord
  | ifWord
  | elseWord
  | returnWord
  deriving DecidableEq, Repr, Inhabited

def Kind.name : Kind → String
  | .eof => "EOF"
  | .identifier => "Identifier"
  | .integer => "Integer"
  | .float => "Float"
  | .operator => "Operator"
  | .openParen => "OpenParen"
  | .closeParen => "CloseParen"
  | .openCurly => "OpenCurly"
  | .closeCurly => "CloseCurly"
  | .colon => "Colon"
  | .comma => "Comma"
  | .arrow => "Arrow"
  | .funcWord => "Func"
  | .ifWord => "If"
  | .elseWord => "Else"
  | .returnWord => "Return"

/-- Whether tokens of the kind differ in their text. -/
def Kind.hasPayload : Kind → Bool
  | .identifier | .integer | .float | .operator => true
  | _ => false

/-- Whether an expression can start with a token of the kind. -/
def Kind.startsExpression : Kind → Bool
  | .identifier | .integer | .float | .openParen | .funcWord | .returnWord | .ifWord => true
  | _ => false

def reservedWords : List (String × Kind) :=
  [("func", .funcWord), ("if", .ifWord), ("else", .elseWord), ("return", .returnWord)]

def reserved? (word : String) : Option Kind := reservedWords.lookup word

end Token

structure Token where
  kind : Token.Kind
  value : String
  span : Span
  deriving DecidableEq, Repr, Inhabited

namespace Token

/-- The token that ends a program at the position. -/
def endAt (position : Position) : Token := ⟨.eof, "EOF", position, position⟩

def text (t : Token) : String :=
  if t.kind.hasPayload then t.kind.name ++ " (" ++ t.value ++ ")" else t.kind.name

/-- The tokens before the first end token. -/
def word (tokens : List Token) : List Token := tokens.takeWhile fun t => t.kind ≠ .eof

theorem word_append {u : List Token} (h : ∀ t ∈ u, t.kind ≠ .eof) (v : List Token) :
    word (u ++ v) = u ++ word v := List.takeWhile_append_of_pos (by simpa using h)

theorem word_eq_self {w : List Token} (h : ∀ t ∈ w, t.kind ≠ .eof) : word w = w := by
  simpa [word] using word_append h []

theorem word_concat {w : List Token} (h : ∀ t ∈ w, t.kind ≠ .eof) {last : Token}
    (hlast : last.kind = .eof) : word (w ++ [last]) = w := by
  rw [word_append h]
  simp [word, hlast]

def isOneOf (t : Token) (kinds : List Kind) : Bool := kinds.contains t.kind

end Token

end ExprLang
