import Hydration.Data.Printer
import Hydration.Yaml.Token.Plain
import Hydration.Yaml.Value

/-!
# Data as YAML text

Data is written in block style: each field and each item has a line of its own, a list stands
in the column of the key that it belongs to, and everything else that is inside of something
stands two columns further right.  Only empty collections are written with brackets.

**Texts** are written plainly where they can be read back as the same text, by this format's
older readers as well.  Otherwise they stand between single quotes, or, if that would
change them, between double quotes.  A text with line feeds becomes a literal block scalar
where possible.

A key is written before a colon if it has one line of at most `simpleKeyLimit` bytes.  Other keys
stand on a line of their own behind `?`, and their values behind a colon on the next.
-/

namespace Hydration.Yaml

/-! ## How a text may be written -/

/-- The length of the longest key that is written before a colon. -/
def simpleKeyLimit : Nat := 128

/-- A character that is not escaped between double quotes. -/
def isShown (c : Char) : Bool :=
  let n := c.toNat
  n == 0x0A || (0x20 ≤ n && n ≤ 0x7E) || (0xA0 ≤ n && n ≤ 0xD7FF)
    || (0xE000 ≤ n && n ≤ 0xFFFD && n != 0xFEFF) || 0x10000 ≤ n

/-- The words that some readers take for a truth value or for null. -/
def doubtfulWords : List String :=
  ["true", "false", "null", "~", "y", "yes", "n", "no", "on", "off"]

/-- Whether some reader might take a plain text for something else. -/
def isDoubtful (s : String) : Bool :=
  doubtfulWords.contains s.toLower
    || s.toList.head?.all (fun c => c.isDigit || c == '-' || c == '.' || c == '+')
    || (match resolvePlain? s with
      | some (.text _) => false
      | _ => true)

/-- Whether some two neighbours in a text satisfy `p`. -/
def anyNeighbours (p : Char → Char → Bool) (cs : List Char) : Bool :=
  (cs.zip (cs.drop 1)).any fun (x, y) => p x y

/-- A blank, a line break or the end. -/
def isBlankOrEnd (c : Option Char) : Bool :=
  c.all fun c => isBlank c || isBreak c

/-- A character with which no plain text may begin. -/
def isOpeningIndicator (c : Char) : Bool :=
  isFlowIndicator c || c == '#' || c == '&' || c == '*' || c == '!' || c == '|' || c == '>'
    || c == '\'' || c == '"' || c == '%' || c == '@' || c == '\x60'

/-- Whether a text has marks that keep it from being plain. -/
def hasIndicators (cs : List Char) : Bool :=
  cs.take 3 == ['-', '-', '-'] || cs.take 3 == ['.', '.', '.']
    || cs.head?.any isOpeningIndicator
    || (cs.head?.any (fun c => c == '?' || c == '-') && isBlankOrEnd cs[1]?)
    || cs.getLast? == some ':'
    || anyNeighbours (fun x y => x == ':' && isBlankOrEnd (some y)) cs
    || anyNeighbours (fun x y => y == '#' && isBlankOrEnd (some x)) cs

/-- The styles in which a text reads back as itself. -/
structure Styles where
  plain : Bool
  singleQuoted : Bool
  literal : Bool

/-- The styles for a text. -/
def Styles.of (cs : List Char) : Styles :=
  let broken := cs.any isBreak
  let edge (p : Char → Bool) := cs.head?.any p || cs.getLast?.any p
  let spaceBehindBreak := anyNeighbours (fun x y => isBreak x && y == ' ') cs
  let special := !cs.all isShown || anyNeighbours (fun x y => x == ' ' && isBreak y) cs
  { plain := !broken && !special && !edge (· == ' ') && !hasIndicators cs
    singleQuoted := !special && !spaceBehindBreak
    literal := !special && cs.getLast? != some ' ' }

/-- The style in which a text is written. -/
def styleOf (s : String) : ScalarStyle :=
  let cs := s.toList
  let styles := Styles.of cs
  if cs.contains '\n' then (if styles.literal then .literal else .doubleQuoted)
  else if styles.plain && !isDoubtful s then .plain
  else if styles.singleQuoted then .singleQuoted
  else .doubleQuoted

/-! ## Texts -/

/-- `n` spaces. -/
def spaces (n : Nat) : List Char :=
  List.replicate n ' '

/-- The characters of a text, written by `write`, with each line that is not empty indented.
The flag says that a line begins here. -/
def indentLines (indent : Nat) (write : Char → List Char) : Bool → List Char → List Char
  | _, [] => []
  | fresh, c :: rest =>
    if isBreak c then c :: indentLines indent write true rest
    else (if fresh then spaces indent else []) ++ write c ++ indentLines indent write false rest

/-- A text between single quotes, with a quote written twice. -/
def singleQuotedChars (indent : Nat) (cs : List Char) : List Char :=
  let closing := if cs.getLast?.any isBreak then spaces indent else []
  '\'' :: indentLines indent (fun c => if c == '\'' then [c, c] else [c]) false cs
    ++ closing ++ ['\'']

/-- The letter that stands for a character behind a backslash. -/
def escapeLetter? (c : Char) : Option Char :=
  match c.toNat with
  | 0x00 => some '0'
  | 0x07 => some 'a'
  | 0x08 => some 'b'
  | 0x09 => some 't'
  | 0x0A => some 'n'
  | 0x0B => some 'v'
  | 0x0C => some 'f'
  | 0x0D => some 'r'
  | 0x1B => some 'e'
  | 0x22 => some '"'
  | 0x5C => some '\\'
  | 0x85 => some 'N'
  | 0x2028 => some 'L'
  | 0x2029 => some 'P'
  | _ => none

/-- The code of a character in a number of hexadecimal digits. -/
def codeDigits (width n : Nat) : List Char :=
  let digits := (Nat.toDigits 16 n).map Char.toUpper
  List.replicate (width - digits.length) '0' ++ digits

/-- A character between double quotes. -/
def doubleQuotedChar (c : Char) : List Char :=
  match escapeLetter? c with
  | some letter => ['\\', letter]
  | none =>
    let n := c.toNat
    if isShown c then [c]
    else if n ≤ 0xFF then '\\' :: 'x' :: codeDigits 2 n
    else if n ≤ 0xFFFF then '\\' :: 'u' :: codeDigits 4 n
    else '\\' :: 'U' :: codeDigits 8 n

/-- The header of a literal scalar: `2` if its first line does not show the
indentation, and a sign unless it ends with one line break. -/
def literalHeader (cs : List Char) : List Char :=
  let digit := if cs.head?.any (fun c => c == ' ' || isBreak c) then ['2'] else []
  let sign := match cs.reverse with
    | [] => ['-']
    | [c] => if isBreak c then ['+'] else ['-']
    | c :: d :: _ => if !isBreak c then ['-'] else if isBreak d then ['+'] else []
  '|' :: (digit ++ sign)

/-- A text inside of a collection in column `indent`. -/
def textChars (indent : Nat) (s : String) : List Char :=
  let cs := s.toList
  match styleOf s with
  | .plain => cs
  | .singleQuoted => singleQuotedChars (indent + 2) cs
  | .literal => literalHeader cs ++ '\n' :: indentLines (indent + 2) (fun c => [c]) true cs
  | _ => '"' :: (cs.flatMap doubleQuotedChar ++ ['"'])

/-! ## Data -/

/-- Whether a key is written before a colon. -/
def isSimpleKey (key : String) : Bool :=
  !key.toList.any isBreak && key.utf8ByteSize ≤ simpleKeyLimit

/-- What leads from some text to a line in column `indent`; a literal scalar may have ended
its line itself. -/
def lineAfter (indent : Nat) (cs : List Char) : List Char :=
  (if cs.getLast?.any isBreak then [] else ['\n']) ++ spaces indent

/-- Lines in column `indent`. -/
def linesChars (indent : Nat) : List (List Char) → List Char
  | [] => []
  | [line] => line
  | line :: rest => line ++ lineAfter indent line ++ linesChars indent rest

mutual

/-- Data behind a mark in column `indent`. -/
def nestedChars (indent : Nat) : Data → List Char
  | .list (item :: rest) => ' ' :: linesChars (indent + 2) (itemLines (indent + 2) (item :: rest))
  | .record ((key, value) :: rest) =>
    ' ' :: linesChars (indent + 2) (fieldLines (indent + 2) ((key, value) :: rest))
  | .string s => ' ' :: textChars indent s
  | .list [] => ' ' :: Data.scalarChars (.list [])
  | .record [] => ' ' :: Data.scalarChars (.record [])
  | .null => ' ' :: Data.scalarChars .null
  | .bool b => ' ' :: Data.scalarChars (.bool b)
  | .int n => ' ' :: Data.scalarChars (.int n)
  | .float bits => ' ' :: Data.scalarChars (.float bits)

/-- The value of a field behind its key in column `indent`. -/
def valueChars (indent : Nat) : Data → List Char
  | .list (item :: rest) =>
    '\n' :: (spaces indent ++ linesChars indent (itemLines indent (item :: rest)))
  | .record ((key, value) :: rest) =>
    '\n' :: (spaces (indent + 2)
      ++ linesChars (indent + 2) (fieldLines (indent + 2) ((key, value) :: rest)))
  | .string s => ' ' :: textChars indent s
  | .list [] => ' ' :: Data.scalarChars (.list [])
  | .record [] => ' ' :: Data.scalarChars (.record [])
  | .null => ' ' :: Data.scalarChars .null
  | .bool b => ' ' :: Data.scalarChars (.bool b)
  | .int n => ' ' :: Data.scalarChars (.int n)
  | .float bits => ' ' :: Data.scalarChars (.float bits)

/-- The items of a list in column `indent`. -/
def itemLines (indent : Nat) : List Data → List (List Char)
  | [] => []
  | item :: rest => ('-' :: nestedChars indent item) :: itemLines indent rest

/-- The fields of a record in column `indent`. -/
def fieldLines (indent : Nat) : List (String × Data) → List (List Char)
  | [] => []
  | (key, value) :: rest =>
    let line :=
      if isSimpleKey key then textChars indent key ++ ':' :: valueChars indent value
      else
        let key := '?' :: ' ' :: textChars indent key
        key ++ lineAfter indent key ++ ':' :: nestedChars indent value
    line :: fieldLines indent rest

end

/-- A record as the text of a file. -/
def render (fields : List (String × Data)) : String :=
  let cs := linesChars 0 (fieldLines 0 fields)
  String.ofList (cs ++ lineAfter 0 cs)

end Hydration.Yaml
