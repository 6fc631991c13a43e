import Hydration.Data.Reader
import Hydration.Decimal.Shortest
import Hydration.Yaml.Node

/-!
# What scalars mean

Where nothing says what a scalar has to be, a plain one is **resolved**: it may be null, a truth
value, an integer or a float, and otherwise it is a text.  A quoted one is a text.
A tag of the format itself asks for one of these; a tag that begins with `!` stands for a
variant of some type, which no value here has.

**Numbers.**  An integer may have a sign and may be written in base 16, 8 or 2 with `0x`, `0o`
or `0b`.  A decimal with superfluous zeros in front is a text.  Integers are those of 64
bits; one that needs up to 128 bits is an error, and a larger one is a float.

A `Value` is a node with its scalars resolved and its references replaced.
-/

namespace Hydration.Yaml

/-- A resolved node. -/
inductive Value where
  | null
  | bool (b : Bool)
  | int (n : Int)
  | float (bits : UInt64)
  | text (s : String)
  | list (items : List Value)
  | mapping (entries : List (Value × Value))
deriving Repr, Inhabited

/-! ## The words for null and the truth values -/

/-- Whether a text says that there is no value. -/
def isNullWord (s : String) : Bool :=
  s == "null" || s == "Null" || s == "NULL" || s == "~"

/-- The truth value that a text says. -/
def truthWord? (s : String) : Option Bool :=
  if s == "true" || s == "True" || s == "TRUE" then some true
  else if s == "false" || s == "False" || s == "FALSE" then some false
  else none

/-! ## Integers -/

/-- The value of a digit of a base up to 16. -/
def digitOf? (base : Nat) (c : Char) : Option Nat :=
  (Data.hexDigit? c).filter (· < base)

/-- The number written by digits of a base; there has to be one. -/
def digitsOf? (base : Nat) (cs : List Char) : Option Nat :=
  if cs.isEmpty then none
  else cs.foldlM (fun n c => (digitOf? base c).map (base * n + ·)) 0

/-- The number written without a sign. -/
def magnitude? : List Char → Option Nat
  | '0' :: 'x' :: digits => digitsOf? 16 digits
  | '0' :: 'o' :: digits => digitsOf? 8 digits
  | '0' :: 'b' :: digits => digitsOf? 2 digits
  | '0' :: _ :: _ => none
  | digits => digitsOf? 10 digits

/-- The integer that a text writes. -/
def integer? (s : String) : Option Int :=
  match s.toList with
  | '+' :: digits => (magnitude? digits).map Int.ofNat
  | '-' :: digits => (magnitude? digits).map (-Int.ofNat ·)
  | digits => (magnitude? digits).map Int.ofNat

/-- The number of 64 bits that a text writes without a minus sign. -/
def natural? (s : String) : Option Nat :=
  match s.toList with
  | '+' :: digits => (magnitude? digits).filter (· < Nat.pow 2 64)
  | digits => (magnitude? digits).filter (· < Nat.pow 2 64)

/-- Whether a text is a decimal with superfluous zeros in front. -/
def hasLeadingZeros (s : String) : Bool :=
  let digits := match s.toList with
    | '+' :: digits => digits
    | '-' :: digits => digits
    | digits => digits
  1 < digits.length && digits.head? == some '0' && digits.all Char.isDigit

/-! ## Floats -/

/-- The bits of infinity. -/
def infinity (negative : Bool) : UInt64 :=
  if negative then 0xFFF0000000000000 else 0x7FF0000000000000

/-- The bits of the value that is not a number. -/
def notANumber : UInt64 := 0x7FF8000000000000

/-- The exponent of a decimal behind its `e`. -/
def exponent? (cs : List Char) : Option Int :=
  let (negative, digits) := match cs with
    | '-' :: digits => (true, digits)
    | '+' :: digits => (false, digits)
    | digits => (false, digits)
  (digitsOf? 10 digits).map fun n => if negative then -Int.ofNat n else Int.ofNat n

/-- The bits of the float that is written as a decimal without a sign. -/
def decimal? (negative : Bool) (cs : List Char) : Option UInt64 := do
  let whole := cs.takeWhile Char.isDigit
  let cs := cs.dropWhile Char.isDigit
  let (fraction, cs) := match cs with
    | '.' :: cs => (cs.takeWhile Char.isDigit, cs.dropWhile Char.isDigit)
    | cs => ([], cs)
  let digits ← digitsOf? 10 (whole ++ fraction)
  let exponent ← match cs with
    | [] => some 0
    | e :: cs => if e == 'e' || e == 'E' then exponent? cs else none
  return Data.floatOf negative digits (exponent - fraction.length)

/-- The bits of the float that a text writes. -/
def float? (s : String) : Option UInt64 :=
  if s == ".nan" || s == ".NaN" || s == ".NAN" then some notANumber
  else
    let (negative, unsigned) := match s.toList with
      | '+' :: cs => (false, cs)
      | '-' :: cs => (true, cs)
      | cs => (false, cs)
    let word := String.ofList unsigned
    if word == ".inf" || word == ".Inf" || word == ".INF" then some (infinity negative)
    else (decimal? negative unsigned).filter Decimal.isFinite

/-! ## Resolving -/

/-- An integer as a value; none if it has more than 64 bits. -/
def integerValue? (n : Int) : Option Value :=
  if -Int.ofNat (Nat.pow 2 63) ≤ n ∧ n < Int.ofNat (Nat.pow 2 64) then some (.int n) else none

/-- The integer a text writes in up to 128 bits. -/
def wideInteger? (s : String) : Option Int :=
  (integer? s).filter fun n =>
    -Int.ofNat (Nat.pow 2 127) ≤ n ∧ n < Int.ofNat (Nat.pow 2 128)

/-- What a plain scalar without a tag means. -/
def resolvePlain? (s : String) : Option Value :=
  if s.isEmpty || isNullWord s then some .null
  else
    match truthWord? s, wideInteger? s with
    | some b, _ => some (.bool b)
    | none, some n => integerValue? n
    | none, none =>
      match if hasLeadingZeros s then none else float? s with
      | some bits => some (.float bits)
      | none => some (.text s)

/-- The tags of the format itself. -/
def standardTag (name : String) : String :=
  "tag:yaml.org,2002:" ++ name

/-- What a scalar with a tag means. -/
def resolveTagged? (tag s : String) : Option Value :=
  if tag == standardTag "bool" then (truthWord? s).map .bool
  else if tag == standardTag "int" then (wideInteger? s).bind integerValue?
  else if tag == standardTag "float" then (float? s).map .float
  else if tag == standardTag "null" then (if isNullWord s then some .null else none)
  else if tag.startsWith "!" then none
  else some (.text s)

/-- What a scalar means. -/
def resolve? (tag : Option String) (s : String) (style : ScalarStyle) : Option Value :=
  match tag with
  | some tag => resolveTagged? tag s
  | none => if style = .plain then resolvePlain? s else some (.text s)

/-- Whether a tag stands for a variant. -/
def isVariantTag (tag : Option String) : Bool :=
  tag.any (·.startsWith "!")

/-! ## Values as data -/

namespace Value

mutual

/-- A value as data.  The keys of a mapping have to be texts, and of equal ones the last
counts.  A float that is no finite number is null. -/
def data? : Value → Option Data
  | null => some .null
  | bool b => some (.bool b)
  | int n => some (.int n)
  | float bits => some (if Decimal.isFinite bits then .float bits else .null)
  | text s => some (.string s)
  | list items => (itemsData? items).map .list
  | mapping entries => (entriesData? entries).map .ofFields

/-- Values as data. -/
def itemsData? : List Value → Option (List Data)
  | [] => some []
  | item :: rest => do
    let item ← item.data?
    return item :: (← itemsData? rest)

/-- Entries as fields. -/
def entriesData? : List (Value × Value) → Option (List (String × Data))
  | [] => some []
  | (text key, value) :: rest => do
    let value ← value.data?
    return (key, value) :: (← entriesData? rest)
  | _ :: _ => none

end

end Value

end Hydration.Yaml
