import ExprLang.Failure
import ExprLang.Line
import ExprLang.Text.Blank

/-!
A report shows a failure to the user: its name and tip, the file, and, where the position
lies in the text, the line with a caret under the place. The line loses the spaces before
it and the blanks after it. Columns count bytes.
-/
namespace ExprLang

namespace Report

def header (cause : Failure.Cause) : String :=
  match cause.tip? with
  | none => "Error: " ++ cause.name
  | some tip => "Error: " ++ cause.name ++ " (" ++ tip ++ ")"

def leadingSpaces (line : List Char) : Nat := (line.takeWhile (· = ' ')).length

/-- The bar that stands under the one between the line number and the line. -/
def bar (number : Nat) : String :=
  String.ofList (List.replicate (number.repr.length + 1) ' ') ++ "|"

def sourceLine (line : Line) : String :=
  line.number.repr ++ " | " ++
    String.ofList (Text.trimEnd (line.text.drop (leadingSpaces line.text)))

def caretLine (line : Line) : String :=
  bar line.number ++ " " ++
    String.ofList (List.replicate (line.column - leadingSpaces line.text) '-') ++ "^"

/-- The lines of the report on a failure in the text. -/
def lines (failure : Failure) (source file : String) : List String :=
  [header failure.cause, "-> " ++ file] ++
    match Line.at? source.toList failure.position.offset.toNat with
    | none => []
    | some line => [bar line.number, sourceLine line, caretLine line]

def render (failure : Failure) (source file : String) : String :=
  String.join ((lines failure source file).map (· ++ "\n"))

end Report

end ExprLang
