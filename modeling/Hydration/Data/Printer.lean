import Hydration.Data.Basic
import Hydration.Decimal.Shortest

/-!
# Data as JSON text

Data is written as JSON in two layouts.  The **compact** one has no white space
at all.  The **indented** one gives each item and each field a line of its own,
two spaces further in than its container; an empty container stays on one line.

A text is written between quotes; a quote, a backslash and the control
characters are escaped, the common ones by a letter, and every other character
stands for itself.

**Floats** have the digits of the shortest decimal that reads back.  The point is
written for numbers from `1e-5` up to `1e16`, with `.0` after a whole number;
outside of this range one digit stands before the point and an exponent follows.
-/

namespace Hydration.Data

/-- `n` zeros. -/
def zeros (n : Nat) : List Char :=
  List.replicate n '0'

/-- A decimal with its point, or with an exponent when it is very large or small. -/
def decimalChars (d : Decimal.Numeral) : List Char :=
  let digits := Nat.toDigits 10 d.digits
  let point : Int := digits.length + d.exponent
  if 0 ≤ d.exponent ∧ point ≤ 16 then digits ++ zeros d.exponent.toNat ++ ['.', '0']
  else if 0 < point ∧ point ≤ 16 then
    digits.take point.toNat ++ '.' :: digits.drop point.toNat
  else if -5 < point ∧ point ≤ 0 then '0' :: '.' :: (zeros (-point).toNat ++ digits)
  else
    let exponent := 'e' :: (toString (point - 1)).toList
    match digits with
    | [d] => d :: exponent
    | d :: more => d :: '.' :: (more ++ exponent)
    | [] => exponent

/-- The written form of a float that is a number. -/
def floatChars (bits : UInt64) : Option (List Char) :=
  match Decimal.Reading.ofBits bits with
  | .zero false => some ['0', '.', '0']
  | .zero true => some ['-', '0', '.', '0']
  | .finite negative v =>
    some ((if negative then ['-'] else []) ++ decimalChars v.shortest)
  | .infinite _ => none
  | .notANumber => none

/-- One character inside a quoted text. -/
def escapeChar (c : Char) : List Char :=
  match c with
  | '"' => ['\\', '"']
  | '\\' => ['\\', '\\']
  | '\n' => ['\\', 'n']
  | '\r' => ['\\', 'r']
  | '\t' => ['\\', 't']
  | '\x08' => ['\\', 'b']
  | '\x0c' => ['\\', 'f']
  | c =>
    if c.toNat < 0x20 then
      '\\' :: 'u' :: '0' :: '0' :: [Nat.digitChar (c.toNat / 16), Nat.digitChar (c.toNat % 16)]
    else [c]

/-- A text between quotes. -/
def quoteChars (s : String) : List Char :=
  '"' :: (s.toList.flatMap escapeChar ++ ['"'])

/-- The written form of data that holds no other data. -/
def scalarChars : Data → List Char
  | null => "null".toList
  | bool b => (if b then "true" else "false").toList
  | int n => (toString n).toList
  | float bits => (floatChars bits).getD "null".toList
  | string s => quoteChars s
  | list _ => ['[', ']']
  | record _ => ['{', '}']

mutual

/-- The compact layout. -/
def compactChars : Data → List Char
  | list items => '[' :: (compactItems items ++ [']'])
  | record fields => '{' :: (compactFields fields ++ ['}'])
  | null => scalarChars null
  | bool b => scalarChars (bool b)
  | int n => scalarChars (int n)
  | float bits => scalarChars (float bits)
  | string s => scalarChars (string s)

/-- Items with commas between them. -/
def compactItems : List Data → List Char
  | [] => []
  | [item] => item.compactChars
  | item :: rest => item.compactChars ++ ',' :: compactItems rest

/-- Fields with commas between them. -/
def compactFields : List (String × Data) → List Char
  | [] => []
  | [(name, value)] => quoteChars name ++ ':' :: value.compactChars
  | (name, value) :: rest =>
    quoteChars name ++ ':' :: (value.compactChars ++ ',' :: compactFields rest)

end

/-- The data on one line, without white space. -/
def compact (d : Data) : String :=
  String.ofList d.compactChars

/-- A new line that is indented by `depth` steps. -/
def newLine (depth : Nat) : List Char :=
  '\n' :: List.replicate (2 * depth) ' '

mutual

/-- The indented layout of data that starts at indentation `depth`. -/
def indentedChars (depth : Nat) : Data → List Char
  | list [] => ['[', ']']
  | list (item :: rest) => '[' :: indentedItems (depth + 1) (item :: rest) ++ newLine depth ++ [']']
  | record [] => ['{', '}']
  | record ((name, value) :: rest) =>
    '{' :: indentedFields (depth + 1) ((name, value) :: rest) ++ newLine depth ++ ['}']
  | null => scalarChars null
  | bool b => scalarChars (bool b)
  | int n => scalarChars (int n)
  | float bits => scalarChars (float bits)
  | string s => scalarChars (string s)

/-- Each item on a line of its own. -/
def indentedItems (depth : Nat) : List Data → List Char
  | [] => []
  | [item] => newLine depth ++ item.indentedChars depth
  | item :: rest => newLine depth ++ item.indentedChars depth ++ ',' :: indentedItems depth rest

/-- Each field on a line of its own. -/
def indentedFields (depth : Nat) : List (String × Data) → List Char
  | [] => []
  | [(name, value)] =>
    newLine depth ++ quoteChars name ++ ':' :: ' ' :: value.indentedChars depth
  | (name, value) :: rest =>
    newLine depth ++ quoteChars name
      ++ ':' :: ' ' :: (value.indentedChars depth ++ ',' :: indentedFields depth rest)

end

/-- The data over several lines, each level two spaces further in. -/
def indented (d : Data) : String :=
  String.ofList (d.indentedChars 0)

end Hydration.Data
