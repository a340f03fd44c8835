import ExprLang.Text.Printable
import ExprLang.Text.Extending
import ExprLang.Text.Ignorable

/-!
Quoted texts stand between double quotes. Inside, the quote, the backslash and four
control characters have escapes of their own; a character that is not printable, that
would be drawn onto its neighbour, or that would leave no mark, is written by its code
point.
-/
namespace ExprLang.Text

/-- The code point in lower-case hexadecimal digits, without padding. -/
def escapeCode (c : Char) : List Char :=
  ['\\', 'u', '\x7b'] ++ Nat.toDigits 16 c.toNat ++ ['\x7d']

def escape (c : Char) : List Char :=
  if c = '"' then ['\\', '"']
  else if c = '\\' then ['\\', '\\']
  else if c = '\x00' then ['\\', '0']
  else if c = '\t' then ['\\', 't']
  else if c = '\n' then ['\\', 'n']
  else if c = '\r' then ['\\', 'r']
  else if isExtending c || isIgnorable c || !isPrintable c then escapeCode c
  else [c]

def quoted (text : String) : String :=
  String.ofList ('"' :: text.toList.flatMap escape ++ ['"'])

end ExprLang.Text
