import ExprLang.Text.Bytes

/-!
Lines of a text. A newline belongs to the line that it ends. Every byte of the text lies on
one line. The end of the text lies on the last line, unless a newline ends that line too:
then it starts a further line, which is empty.
-/
namespace ExprLang

/-- A line of a text and a place on it: so many bytes of the line come before the place. -/
structure Line where
  number : Nat
  text : List Char
  column : Nat
  deriving DecidableEq, Repr

namespace Line

def split : List Char → List (List Char)
  | [] => []
  | c :: cs =>
    if c = '\n' then [c] :: split cs
    else match split cs with
      | [] => [[c]]
      | line :: lines => (c :: line) :: lines

theorem flatten_split (cs : List Char) : (split cs).flatten = cs := by
  induction cs with
  | nil => rfl
  | cons c cs ih =>
    rw [split]
    split
    · simp [ih]
    · split <;> simp_all

def isComplete (line : List Char) : Bool := line.getLast? = some '\n'

/-- The place so many bytes after the start of the first of the lines. -/
def locate (number : Nat) : Nat → List (List Char) → Line
  | offset, [] => ⟨number, [], offset⟩
  | offset, line :: lines =>
    if offset < Text.bytes line ∨ (offset = Text.bytes line ∧ !isComplete line) then
      ⟨number, line, offset⟩
    else
      locate (number + 1) (offset - Text.bytes line) lines

/-- The line of a byte offset; none past the end of the text. -/
def at? (source : List Char) (offset : Nat) : Option Line :=
  if offset ≤ Text.bytes source then some (locate 1 offset (split source)) else none

end Line

end ExprLang
