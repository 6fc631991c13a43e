import Hydration.Yaml.Cursor
import Hydration.Yaml.Token.Basic

/-!
# Quoted scalars

Between single quotes every character stands for itself, and a quote is written
twice.  Between double quotes a backslash begins an escape: a letter for a special
character, or the code of a character in two, four or eight hexadecimal digits.

A quoted scalar may go over several lines, which are folded; a backslash at the end of
a line joins it to the next one without a space.
-/

namespace Hydration.Yaml

/-- What the character after a backslash stands for, if it needs no code. -/
def simpleEscape? (c : Char) : Option Char :=
  match c with
  | '0' => some '\x00'
  | 'a' => some '\x07'
  | 'b' => some '\x08'
  | 't' => some '\t'
  | '\t' => some '\t'
  | 'n' => some '\n'
  | 'v' => some '\x0b'
  | 'f' => some '\x0c'
  | 'r' => some '\r'
  | 'e' => some '\x1b'
  | ' ' => some ' '
  | '"' => some '"'
  | '/' => some '/'
  | '\\' => some '\\'
  | 'N' => some (Char.ofNat 0x85)
  | '_' => some (Char.ofNat 0xA0)
  | 'L' => some (Char.ofNat 0x2028)
  | 'P' => some (Char.ofNat 0x2029)
  | _ => none

/-- How many digits of a code follow the character after a backslash. -/
def codeLength? (c : Char) : Option Nat :=
  match c with
  | 'x' => some 2
  | 'u' => some 4
  | 'U' => some 8
  | _ => none

/-- The value of a hexadecimal digit. -/
def hexDigit? (c : Char) : Option Nat :=
  if '0' ≤ c ∧ c ≤ '9' then some (c.toNat - 0x30)
  else if 'a' ≤ c ∧ c ≤ 'f' then some (c.toNat - 0x61 + 10)
  else if 'A' ≤ c ∧ c ≤ 'F' then some (c.toNat - 0x41 + 10)
  else none

/-- The character with the code written by the given digits. -/
def codeChar? (digits : List Char) (count : Nat) : Option Char := do
  if digits.length ≠ count then none
  let n ← digits.foldlM (fun n c => (hexDigit? c).map (16 * n + ·)) 0
  if h : n.isValidChar then some (Char.ofNatAux n h) else none

/-- A stretch of a quoted scalar without blanks, the last character first in `acc`.
It ends at a blank, a line break, the closing quote, or behind an escaped line break,
and the flag says whether it was the last of these. -/
def quotedStretch (single : Bool) : Nat → List Char → Cursor → Option (List Char × Bool × Cursor)
  | 0, _, _ => none
  | fuel + 1, acc, c =>
    match c.rest with
    | [] => some (acc, false, c)
    | x :: more =>
      if isBlank x || isBreak x then some (acc, false, c)
      else if single then
        match x, more with
        | '\'', '\'' :: _ => quotedStretch single fuel ('\'' :: acc) (c.skipMany 2)
        | '\'', _ => some (acc, false, c)
        | _, _ => quotedStretch single fuel (x :: acc) c.skip
      else
        match x, more with
        | '"', _ => some (acc, false, c)
        | '\\', y :: _ =>
          if isBreak y then some (acc, true, c.skip.skipBreak)
          else
            match simpleEscape? y, codeLength? y with
            | some z, _ => quotedStretch single fuel (z :: acc) (c.skipMany 2)
            | none, some count => do
              let z ← codeChar? (c.rest.drop 2 |>.take count) count
              quotedStretch single fuel (z :: acc) (c.skipMany (2 + count))
            | none, none => none
        | '\\', [] => none
        | _, _ => quotedStretch single fuel (x :: acc) c.skip

/-- Blanks and line breaks inside a quoted scalar.  `broken` says that a line break
has been passed, after which blanks do not count; `first` and `more` are the texts of
the first line break and of the others. -/
def quotedGap : Nat → Bool → List Char → List Char → List Char → Cursor →
    Bool × List Char × List Char × List Char × Cursor
  | 0, broken, blanks, first, more, c => (broken, blanks, first, more, c)
  | fuel + 1, broken, blanks, first, more, c =>
    match c.rest with
    | [] => (broken, blanks, first, more, c)
    | x :: _ =>
      if isBlank x then
        quotedGap fuel broken (if broken then blanks else blanks ++ [x]) first more c.skip
      else if isBreak x then
        if broken then quotedGap fuel true blanks first (more ++ c.breakText) c.skipBreak
        else quotedGap fuel true [] c.breakText more c.skipBreak
      else (broken, blanks, first, more, c)

/-- The rest of a quoted scalar, the last character first in `acc`. -/
def quotedRest (single : Bool) : Nat → List Char → Cursor → Option (List Char × Cursor)
  | 0, _, _ => none
  | fuel + 1, acc, c =>
    if c.atDocumentIndicator || c.atEnd then none
    else do
      let (acc, joined, c) ← quotedStretch single (c.rest.length + 1) acc c
      if !joined && c.at? (if single then '\'' else '"') then some (acc.reverse, c.skip)
      else
        let (broken, blanks, first, more, c) := quotedGap (c.rest.length + 1) joined [] [] [] c
        let gap := if broken then folded first more else blanks
        quotedRest single fuel (gap.reverse ++ acc) c

/-- Reads a quoted scalar at its opening quote. -/
def readQuotedScalar (single : Bool) (c : Cursor) : Option (Token × Cursor) := do
  let (text, c) ← quotedRest single (c.rest.length + 1) [] c.skip
  return (.scalar (String.ofList text) (if single then .singleQuoted else .doubleQuoted), c)

end Hydration.Yaml
