import Hydration.Data.Basic

/-!
# Reading JSON

`Data.read?` reads one JSON value that fills a text up to white space.  A number
without point and exponent is an integer when it fits into 64 bits, with or
without a sign; every other number is a float.  Of two fields with the same name
the later one counts.

Every value, item and field takes at least one character, so the length of the
text bounds the steps; that bound is the first argument of the readers below and
does not show in `read?`.
-/

namespace Hydration.Data

/-- The four characters that JSON allows between its parts. -/
def isGap (c : Char) : Bool :=
  c == ' ' || c == '\n' || c == '\r' || c == '\t'

/-- The text after the gap at its head. -/
def skipGap (cs : List Char) : List Char :=
  cs.dropWhile isGap

/-- The value of a hexadecimal digit. -/
def hexDigit? (c : Char) : Option Nat :=
  if '0' ≤ c ∧ c ≤ '9' then some (c.toNat - 0x30)
  else if 'a' ≤ c ∧ c ≤ 'f' then some (c.toNat - 0x61 + 10)
  else if 'A' ≤ c ∧ c ≤ 'F' then some (c.toNat - 0x41 + 10)
  else none

/-- The number written by hexadecimal digits. -/
def hexNumber? (cs : List Char) : Option Nat :=
  cs.foldlM (fun n c => (hexDigit? c).map (16 * n + ·)) 0

/-- The number written by decimal digits. -/
def decimalNumber (cs : List Char) : Nat :=
  cs.foldl (fun n c => 10 * n + (c.toNat - 0x30)) 0

/-- The character for a code point that is not a surrogate. -/
def charOf? (n : Nat) : Option Char :=
  if h : n.isValidChar then some (Char.ofNatAux n h) else none

/-- The character that a letter after a backslash stands for. -/
def escaped? (c : Char) : Option Char :=
  match c with
  | '"' => some '"'
  | '\\' => some '\\'
  | '/' => some '/'
  | 'b' => some '\x08'
  | 'f' => some '\x0c'
  | 'n' => some '\n'
  | 'r' => some '\r'
  | 't' => some '\t'
  | _ => none

/-- The rest of a text whose opening quote has been read, up to its closing quote.
A character beyond the first plane may be written by two escaped surrogates. -/
def readQuoted : List Char → Option (List Char × List Char)
  | '"' :: rest => some ([], rest)
  | '\\' :: 'u' :: x :: y :: z :: w :: rest => do
    let n ← hexNumber? [x, y, z, w]
    if 0xD800 ≤ n ∧ n < 0xDC00 then
      match rest with
      | '\\' :: 'u' :: x :: y :: z :: w :: rest =>
        let low ← hexNumber? [x, y, z, w]
        if low < 0xDC00 ∨ 0xE000 ≤ low then none
        let c ← charOf? (0x10000 + (n - 0xD800) * 0x400 + (low - 0xDC00))
        let (text, rest) ← readQuoted rest
        return (c :: text, rest)
      | _ => none
    else
      let c ← charOf? n
      let (text, rest) ← readQuoted rest
      return (c :: text, rest)
  | '\\' :: c :: rest => do
    let c ← escaped? c
    let (text, rest) ← readQuoted rest
    return (c :: text, rest)
  | c :: rest => do
    if c.toNat < 0x20 then none
    let (text, rest) ← readQuoted rest
    return (c :: text, rest)
  | [] => none

/-- The exponent beyond which every number that is not zero is infinite. -/
def greatestExponent : Nat := 310

/-- The bits of the float nearest to `digits · 10 ^ exponent`.  What lies far outside of the
range of floats is zero or infinite, and is not computed. -/
def floatOf (negative : Bool) (digits : Nat) (exponent : Int) : UInt64 :=
  let magnitude :=
    if digits = 0 then 0
    else if 0 ≤ exponent then
      Float.ofScientific digits false (min exponent.natAbs greatestExponent)
    else if exponent + (Nat.toDigits 10 digits).length < -400 then 0
    else Float.ofScientific digits true exponent.natAbs
  (if negative then -magnitude else magnitude).toBits

/-- An integer that fits into 64 bits, or the float nearest to it. -/
def integer (negative : Bool) (n : Nat) : Data :=
  if negative then
    (if 0 < n ∧ n ≤ Nat.pow 2 63 then int (-n) else float (floatOf true n 0))
  else if n < Nat.pow 2 64 then int n
  else float (floatOf false n 0)

/-- A number at the head of the text. -/
def readNumber (cs : List Char) : Option (Data × List Char) := do
  let (negative, cs) := match cs with
    | '-' :: rest => (true, rest)
    | _ => (false, cs)
  let whole := cs.takeWhile Char.isDigit
  let cs := cs.dropWhile Char.isDigit
  if whole.isEmpty || (whole.length > 1 && whole.head? == some '0') then none
  let (fraction, cs) ← match cs with
    | '.' :: rest =>
      if (rest.takeWhile Char.isDigit).isEmpty then none
      else some (some (rest.takeWhile Char.isDigit), rest.dropWhile Char.isDigit)
    | _ => some (none, cs)
  let (exponent, cs) ← match cs with
    | e :: rest =>
      if e == 'e' || e == 'E' then
        let (down, rest) := match rest with
          | '-' :: rest => (true, rest)
          | '+' :: rest => (false, rest)
          | _ => (false, rest)
        if (rest.takeWhile Char.isDigit).isEmpty then none
        else
          let n : Int := decimalNumber (rest.takeWhile Char.isDigit)
          some (some (if down then -n else n), rest.dropWhile Char.isDigit)
      else some (none, cs)
    | [] => some (none, cs)
  match fraction, exponent with
  | none, none => return (integer negative (decimalNumber whole), cs)
  | _, _ =>
    let fraction := fraction.getD []
    return (float (floatOf negative (decimalNumber (whole ++ fraction))
      (exponent.getD 0 - fraction.length)), cs)

mutual

/-- A value at the head of the text. -/
def readValue : Nat → List Char → Option (Data × List Char)
  | 0, _ => none
  | fuel + 1, cs =>
    match skipGap cs with
    | 'n' :: 'u' :: 'l' :: 'l' :: rest => some (null, rest)
    | 't' :: 'r' :: 'u' :: 'e' :: rest => some (bool true, rest)
    | 'f' :: 'a' :: 'l' :: 's' :: 'e' :: rest => some (bool false, rest)
    | '"' :: rest => (readQuoted rest).map fun (text, rest) => (string (String.ofList text), rest)
    | '[' :: rest =>
      match skipGap rest with
      | ']' :: rest => some (list [], rest)
      | rest => (readItems fuel rest).map fun (items, rest) => (list items, rest)
    | '{' :: rest =>
      match skipGap rest with
      | '}' :: rest => some (record [], rest)
      | rest => (readFields fuel rest).map fun (fields, rest) => (ofFields fields, rest)
    | cs => readNumber cs

/-- Items up to the closing bracket. -/
def readItems : Nat → List Char → Option (List Data × List Char)
  | 0, _ => none
  | fuel + 1, cs => do
    let (item, rest) ← readValue fuel cs
    match skipGap rest with
    | ']' :: rest => return ([item], rest)
    | ',' :: rest =>
      let (items, rest) ← readItems fuel rest
      return (item :: items, rest)
    | _ => none

/-- Fields up to the closing brace. -/
def readFields : Nat → List Char → Option (List (String × Data) × List Char)
  | 0, _ => none
  | fuel + 1, cs => do
    match skipGap cs with
    | '"' :: rest =>
      let (name, rest) ← readQuoted rest
      match skipGap rest with
      | ':' :: rest =>
        let (value, rest) ← readValue fuel rest
        match skipGap rest with
        | '}' :: rest => return ([(String.ofList name, value)], rest)
        | ',' :: rest =>
          let (fields, rest) ← readFields fuel rest
          return ((String.ofList name, value) :: fields, rest)
        | _ => none
      | _ => none
    | _ => none

end

/-- The JSON value that fills the text. -/
def read? (s : String) : Option Data := do
  let (value, rest) ← readValue (2 * s.length + 1) s.toList
  if (skipGap rest).isEmpty then some value else none

end Hydration.Data
