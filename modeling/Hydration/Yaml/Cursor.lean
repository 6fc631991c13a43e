/-!
# Reading YAML text

A `Cursor` stands at a place in a YAML text and knows the line and the column.  The
characters that YAML 1.1 tells apart are the **blanks** (space and tab) and the **line
breaks**, which are the line feed, the carriage return, both together, the next line,
and the line and paragraph separators.

When text goes over from one line to the next, a line break counts as one line feed,
except that the two separators stand for themselves.

A text may hold only printable characters, tabs and line breaks.
-/

namespace Hydration.Yaml

/-- A character that may occur in a YAML text. -/
def isAllowed (c : Char) : Bool :=
  let n := c.toNat
  n == 0x09 || n == 0x0A || n == 0x0D || (0x20 ≤ n && n ≤ 0x7E) || n == 0x85
    || (0xA0 ≤ n && n ≤ 0xD7FF) || (0xE000 ≤ n && n ≤ 0xFFFD) || 0x10000 ≤ n

/-- A space or a tab. -/
def isBlank (c : Char) : Bool :=
  c == ' ' || c == '\t'

/-- A character that ends a line. -/
def isBreak (c : Char) : Bool :=
  let n := c.toNat
  n == 0x0A || n == 0x0D || n == 0x85 || n == 0x2028 || n == 0x2029

/-- A character of names: a letter, a digit, `_` or `-`. -/
def isWordChar (c : Char) : Bool :=
  c.isAlphanum || c == '_' || c == '-'

/-- A place in a text. -/
structure Cursor where
  /-- The text from here on. -/
  rest : List Char
  /-- The number of bytes before this place. -/
  offset : Nat
  line : Nat
  column : Nat
deriving Repr, Inhabited

namespace Cursor

/-- The beginning of a text. -/
def start (cs : List Char) : Cursor := ⟨cs, 0, 0, 0⟩

variable (c : Cursor)

/-- The character at this place. -/
def peek : Option Char := c.rest.head?

/-- The character some places on. -/
def peekAt (n : Nat) : Option Char := c.rest[n]?

/-- Whether a given character stands here. -/
def at? (x : Char) : Bool := c.peek == some x

/-- The place after one character that does not end a line. -/
def skip : Cursor :=
  match c.rest with
  | [] => c
  | x :: rest => ⟨rest, c.offset + x.utf8Size, c.line, c.column + 1⟩

/-- The place after some characters that do not end a line. -/
def skipMany (n : Nat) : Cursor :=
  n.repeat skip c

/-- The place after the line break here. -/
def skipBreak : Cursor :=
  match c.rest with
  | '\r' :: '\n' :: rest => ⟨rest, c.offset + 2, c.line + 1, 0⟩
  | x :: rest => ⟨rest, c.offset + x.utf8Size, c.line + 1, 0⟩
  | [] => c

/-- What the line break here stands for in a text that goes over several lines. -/
def breakText : List Char :=
  match c.rest with
  | x :: _ => if x.toNat = 0x2028 ∨ x.toNat = 0x2029 then [x] else ['\n']
  | [] => []

/-- Whether a blank stands here. -/
def atBlank : Bool := c.peek.any isBlank

/-- Whether a line break stands here. -/
def atBreak : Bool := c.peek.any isBreak

/-- Whether the text ends here. -/
def atEnd : Bool := c.rest.isEmpty

/-- Whether a line break or the end is here. -/
def atBreakOrEnd : Bool := c.atEnd || c.atBreak

/-- Whether a blank, a line break or the end is some places on. -/
def blankOrEndAt (n : Nat) : Bool :=
  match c.peekAt n with
  | none => true
  | some x => isBlank x || isBreak x

/-- Whether `---` or `...` stands alone at the beginning of a line. -/
def atDocumentIndicator : Bool :=
  c.column == 0 && (c.rest.take 3 == ['-', '-', '-'] || c.rest.take 3 == ['.', '.', '.'])
    && c.blankOrEndAt 3

/-- The characters here that satisfy `p`, and the place after them. -/
def takeWhile (p : Char → Bool) : List Char × Cursor :=
  let taken := c.rest.takeWhile p
  (taken, c.skipMany taken.length)

/-- The place after the blanks here. -/
def skipBlanks : Cursor := (c.takeWhile isBlank).2

/-- The place after the comment here, if there is one. -/
def skipComment : Cursor :=
  if c.at? '#' then (c.takeWhile (!isBreak ·)).2 else c

end Cursor

/-- The text between two parts of a scalar that goes over from one line to the next:
a line feed alone becomes a space, and of several the first one is dropped. -/
def folded (first more : List Char) : List Char :=
  match first with
  | '\n' :: _ => if more.isEmpty then [' '] else more
  | first => first ++ more

end Hydration.Yaml
