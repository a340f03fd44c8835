import ExprLang.Token

/-!
A cursor stands at one token of a list that ends with an end token. It moves forward one
token at a time and never past the first end token, though others may stand behind it.
-/
namespace ExprLang

@[ext]
structure Cursor where
  /-- The name of the text, for a position before the first token. -/
  file : String
  /-- The tokens before the current one, the latest first. -/
  passed : List Token
  current : Token
  ahead : List Token
  ends : ((current :: ahead).getLast (List.cons_ne_nil _ _)).kind = .eof

namespace Cursor

/-- The cursor at the first token. An end token is put behind the last token if that is none
itself. -/
def start (tokens : List Token) (file : String) : Cursor :=
  match tokens with
  | [] => ⟨file, [], .endAt (.after 0 file), [], rfl⟩
  | t :: ts =>
    let last := (t :: ts).getLast (List.cons_ne_nil _ _)
    if h : last.kind = .eof then ⟨file, [], t, ts, h⟩
    else ⟨file, [], t, ts ++ [.endAt last.span.stop], by simp [List.getLast_cons, Token.endAt]⟩

/-- The number of tokens passed. -/
def index (c : Cursor) : Nat := c.passed.length

/-- The tokens that the cursor moves over, the passed ones included. -/
def tokens (c : Cursor) : List Token := c.passed.reverse ++ c.current :: c.ahead

/-- The tokens from the current one up to the first end token. -/
def word (c : Cursor) : List Token := Token.word (c.current :: c.ahead)

/-- The number of these tokens. -/
def remaining (c : Cursor) : Nat := c.word.length

def hasTokens (c : Cursor) : Bool := c.current.kind ≠ .eof

/-- The token so many places ahead, or the last token if there are fewer. -/
def peek (c : Cursor) (count : Nat) : Token :=
  ((c.current :: c.ahead)[count]?).getD ((c.current :: c.ahead).getLast (List.cons_ne_nil _ _))

/-- The cursor at the next token, unless the current one is an end token. -/
def advance : Cursor → Cursor
  | ⟨file, passed, t, [], ends⟩ => ⟨file, passed, t, [], ends⟩
  | ⟨file, passed, t, u :: us, ends⟩ =>
    if t.kind = .eof then ⟨file, passed, t, u :: us, ends⟩
    else ⟨file, t :: passed, u, us, ends⟩

/-- Where the token before the current one stops. -/
def lastEnd (c : Cursor) : Position :=
  match c.passed with
  | [] => .after 0 c.file
  | t :: _ => t.span.stop

theorem remaining_pos {c : Cursor} (h : c.current.kind ≠ .eof) : 0 < c.remaining := by
  simp [remaining, word, Token.word, h]

theorem remaining_advance {c : Cursor} (h : c.current.kind ≠ .eof) :
    c.advance.remaining + 1 = c.remaining := by
  obtain ⟨file, passed, t, ahead, ends⟩ := c
  cases ahead with
  | nil => exact absurd (by simpa using ends) h
  | cons u us =>
    simp only at h
    simp [advance, remaining, word, Token.word, h]

theorem advance_of_eof {c : Cursor} (h : c.current.kind = .eof) : c.advance = c := by
  obtain ⟨file, passed, t, ahead, ends⟩ := c
  cases ahead with
  | nil => rfl
  | cons u us => exact if_pos h

end Cursor

end ExprLang
