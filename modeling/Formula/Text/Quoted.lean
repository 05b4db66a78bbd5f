/-
# Formula.Text.Quoted — text between double quotes, unreadable characters escaped

A quote and a backslash take a backslash before them; tab, line feed, carriage
return and the null character have letters of their own; every other character
that leaves no mark is named by its code point in lower-case hexadecimal.
-/
import Formula.Text.Unprintable

namespace Formula.Text

set_option autoImplicit false

/-- How one character stands between quotes. -/
def escape (c : Char) : List Char :=
  match c with
  | '\x00' => ['\\', '0']
  | '\t' => ['\\', 't']
  | '\n' => ['\\', 'n']
  | '\r' => ['\\', 'r']
  | '"' => ['\\', '"']
  | '\\' => ['\\', '\\']
  | c => if isUnprintable c then "\\u\x7b".toList ++ Nat.toDigits 16 c.toNat ++ ['}'] else [c]

/-- A text between double quotes. -/
def quoted (text : String) : String :=
  String.ofList ('"' :: text.toList.flatMap escape ++ ['"'])

end Formula.Text
