import ExprLang.Failure
import ExprLang.Lexeme

/-!
Scanning turns a program text into tokens. It succeeds when the whole text splits into
lexemes; otherwise the first character at which no lexeme starts is the failure.
-/
namespace ExprLang

/-- The name of a text that was not read from a file. -/
def shellFile : String := "shell"

def scan (source file : String) : Except Failure (List Token) :=
  match Lexeme.split source.toList with
  | (lexemes, []) => .ok (Lexeme.tokens file 0 lexemes)
  | (lexemes, c :: _) =>
    .error ⟨.unrecognised (String.singleton c), .after (Lexeme.bytes lexemes) file⟩

/-- A scanner stands at a byte offset of a text. The offset is a word of 64 bits and may
lie inside a character or past the end; there nothing can be read. -/
structure Scanner where
  source : String
  file : String
  offset : UInt64

namespace Scanner

def start (source file : String) : Scanner := ⟨source, file, 0⟩

def advance (s : Scanner) (count : UInt64) : Scanner := { s with offset := s.offset + count }

def position (s : Scanner) : Position := .after s.offset.toNat s.file

/-- The span of the next bytes. -/
def span (s : Scanner) (count : UInt64) : Span := ⟨s.position, (s.advance count).position⟩

/-- The text from the offset on, unless a character is cut or the end is passed. -/
def rest? (s : Scanner) : Option (List Char) :=
  Text.dropBytes? s.offset.toNat s.source.toList

/-- The next character, where the text can be read; none at the end. -/
def next? (s : Scanner) : Option (Option Char) := s.rest?.map List.head?

def atEnd (s : Scanner) : Bool := Text.bytes s.source.toList ≤ s.offset.toNat

end Scanner

end ExprLang
