import Hydration.Text.Printable

/-!
# Quoted texts

A text is shown between double quotes so that every character of it can be told.  A quote and a
backslash are preceded by a backslash, the common control characters are a backslash and a
letter, and other characters that do not show themselves are given by their code.
-/

namespace Hydration.Text

/-- A character of a quoted text. -/
def quotedChar (c : Char) : List Char :=
  match c with
  | '"' => ['\\', '"']
  | '\\' => ['\\', '\\']
  | '\t' => ['\\', 't']
  | '\n' => ['\\', 'n']
  | '\r' => ['\\', 'r']
  | '\x00' => ['\\', '0']
  | c =>
    if isPrintable c then [c]
    else '\\' :: 'u' :: '{' :: (Nat.toDigits 16 c.toNat ++ ['}'])

/-- A text between quotes. -/
def quoted (s : String) : String :=
  String.ofList ('"' :: (s.toList.flatMap quotedChar ++ ['"']))

end Hydration.Text
