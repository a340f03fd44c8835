import ExprLang.Text.Blank
import ExprLang.Text.Bytes
import ExprLang.Text.Pattern
import ExprLang.Token

/-!
Lexemes are the pieces that a program text falls into. Each belongs to a class, and the
classes stand in one table in order of preference: at every place the first class of the
table whose pattern matches there decides. It takes what the pattern matches, or, if it is a
mark, its own text, which is not compared with what stands there. A text is split into lexemes
from the left, up to a place where no pattern matches.

That the text splits so rests on the table alone: the patterns of its marks match their texts,
and none of its patterns matches the empty text.
-/
namespace ExprLang

open Text (Pattern)

namespace Lexeme

inductive Class where
  | word
  | decimal
  | integer
  | blanks
  | comment
  | fixed (kind : Token.Kind) (pattern text : String)
  deriving DecidableEq, Repr

def classes : List Class :=
  [.word, .decimal, .integer, .blanks, .comment,
   .fixed .openCurly "\x7b" "\x7b", .fixed .closeCurly "\x7d" "\x7d",
   .fixed .openParen "(" "(", .fixed .closeParen ")" ")",
   .fixed .colon ":" ":", .fixed .comma "," ",", .fixed .arrow "->" "->",
   .fixed .operator "==" "==", .fixed .operator "!=" "!=",
   .fixed .operator "<=" "<=", .fixed .operator ">=" ">=",
   .fixed .operator "<" "<", .fixed .operator ">" ">",
   .fixed .operator "+" "+", .fixed .operator "-" "-",
   .fixed .operator "*" "*", .fixed .operator "/" "/", .fixed .operator "%" "%"]

def isWordStart (c : Char) : Bool := c.isAlpha || c == '_'

def isWordPart (c : Char) : Bool := c.isAlphanum || c == '_'

namespace Class

/-- The pattern that tells whether a text of the class is at the front. -/
def pattern : Class → Pattern
  -- `[a-zA-Z_][a-zA-Z0-9_]*`
  | .word => .seq (.one isWordStart) (.many isWordPart)
  -- `[0-9]+\.[0-9]+`
  | .decimal => .seq (.oneOrMore Char.isDigit) (.seq (.text ['.']) (.oneOrMore Char.isDigit))
  -- `[0-9]+`
  | .integer => .oneOrMore Char.isDigit
  -- `\s+`
  | .blanks => .oneOrMore Text.isBlank
  -- `//[^\n]*`
  | .comment => .seq (.text ['/', '/']) (.many (· ≠ '\n'))
  | .fixed _ pattern _ => .text pattern.toList

def match? (k : Class) (cs : List Char) : Option (List Char) := k.pattern.match? cs

/-- The text that the class takes where its pattern has matched a text. -/
def taken : Class → List Char → List Char
  | .fixed _ _ text, _ => text.toList
  | _, matched => matched

/-- Whether the text of a mark is the one that its pattern matches. -/
def agrees : Class → Bool
  | .fixed _ pattern text => pattern == text
  | _ => true

theorem consumes_and_agrees {k : Class} (h : k ∈ classes) :
    k.pattern.consumes = true ∧ k.agrees = true := by
  have hall : ∀ k ∈ classes, k.pattern.consumes = true ∧ k.agrees = true := by decide
  exact hall k h

theorem pattern_eq_text {kind : Token.Kind} {pattern text : String}
    (h : .fixed kind pattern text ∈ classes) : pattern = text := by
  simpa [agrees] using (consumes_and_agrees h).2

/-- A class of the table takes what its pattern matches, and that is not empty. -/
theorem taken_of_match? {k : Class} {cs w : List Char} (hmem : k ∈ classes)
    (h : k.match? cs = some w) : k.taken w = w ∧ w ≠ [] := by
  refine ⟨?_, Pattern.ne_nil_of_match? (consumes_and_agrees hmem).1 h⟩
  cases k with
  | fixed kind pattern text =>
    obtain rfl := pattern_eq_text hmem
    rw [match?, Class.pattern, Pattern.match?_text] at h
    split at h
    · exact Option.some.inj h
    · simp at h
  | word | decimal | integer | blanks | comment => rfl

end Class

end Lexeme

structure Lexeme where
  cls : Lexeme.Class
  text : List Char
  deriving DecidableEq, Repr

namespace Lexeme

/-- The kind of token that the lexeme becomes; blanks and comments become none. -/
def kind? (l : Lexeme) : Option Token.Kind :=
  match l.cls with
  | .word => some ((Token.reserved? (String.ofList l.text)).getD .identifier)
  | .decimal => some .float
  | .integer => some .integer
  | .blanks | .comment => none
  | .fixed kind _ _ => some kind

def Class.lexeme? (k : Class) (cs : List Char) : Option Lexeme :=
  (k.match? cs).map fun matched => ⟨k, k.taken matched⟩

/-- The lexeme at the front of the text. -/
def first? (cs : List Char) : Option Lexeme := classes.findSome? fun k => k.lexeme? cs

theorem match?_of_first? {cs : List Char} {l : Lexeme} (h : first? cs = some l) :
    l.cls.match? cs = some l.text ∧ l.text ≠ [] := by
  obtain ⟨k, hmem, hk⟩ := List.exists_of_findSome?_eq_some h
  obtain ⟨w, hw, rfl⟩ := Option.map_eq_some_iff.mp hk
  obtain ⟨htaken, hne⟩ := Class.taken_of_match? hmem hw
  rw [htaken]
  exact ⟨hw, hne⟩

theorem first?_eq_some {cs : List Char} {l : Lexeme} (h : first? cs = some l) :
    l.text ≠ [] ∧ ∃ rest, l.text ++ rest = cs := by
  obtain ⟨hmatch, hne⟩ := match?_of_first? h
  exact ⟨hne, Pattern.prefix_of_match? hmatch⟩

theorem length_drop_first? {cs : List Char} {l : Lexeme} (h : first? cs = some l) :
    (cs.drop l.text.length).length < cs.length := by
  obtain ⟨hne, rest, rfl⟩ := first?_eq_some h
  have hpos : 0 < l.text.length := List.length_pos_iff.mpr hne
  simp only [List.drop_left, List.length_append]
  omega

/-- The lexemes of the text and what is left of it where no lexeme stands. -/
def split (cs : List Char) : List Lexeme × List Char :=
  match _ : first? cs with
  | none => ([], cs)
  | some l => (split (cs.drop l.text.length)).map (l :: ·) id
termination_by cs.length
decreasing_by exact length_drop_first? (by assumption)

theorem split_of_none {cs : List Char} (h : first? cs = none) : split cs = ([], cs) := by
  rw [split]
  split
  · rfl
  · simp_all

theorem split_of_some {l : Lexeme} {rest : List Char} (h : first? (l.text ++ rest) = some l) :
    split (l.text ++ rest) = (l :: (split rest).1, (split rest).2) := by
  rw [split]
  split
  · simp_all
  · rename_i l' h'
    obtain rfl := Option.some.inj (h.symm.trans h')
    simp [Prod.map]

/-- The tokens of lexemes that start at the offset, with the token that ends them. -/
def tokens (file : String) : Nat → List Lexeme → List Token
  | offset, [] => [.endAt (.after offset file)]
  | offset, l :: ls =>
    let stop := offset + Text.bytes l.text
    match l.kind? with
    | none => tokens file stop ls
    | some kind =>
      ⟨kind, String.ofList l.text, .between offset stop file⟩ :: tokens file stop ls

/-- The number of bytes that the lexemes take. -/
def bytes (ls : List Lexeme) : Nat := Text.bytes (ls.flatMap Lexeme.text)

end Lexeme

end ExprLang
