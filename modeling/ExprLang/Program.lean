import ExprLang.Reading
import ExprLang.Scan

/-!
A program is a list of definitions and bare expressions. Its text is scanned and its tokens
are read; the first failure of either is the result.
-/
namespace ExprLang.Program

def ofTokens (tokens : List Token) (file : String) : Except Failure (List Node) :=
  (Cursor.start tokens file).units.1

def ofSource (source file : String) : Except Failure (List Node) := do
  let tokens ← scan source file
  ofTokens tokens file

end ExprLang.Program
