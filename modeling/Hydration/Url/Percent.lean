/-!
# Percent-encoding

Each part of a URL has a set of characters that are written as `%` and two
hexadecimal digits per byte of their UTF-8 form.  Control characters and all
characters outside ASCII are encoded in every part; the sets below say what else
is.  A `%` that is already there is left alone.
-/

namespace Hydration.Url

/-- A part of a URL with its own set of encoded characters. -/
inductive EncodeSet where
  /-- Control characters and characters outside ASCII only. -/
  | controls
  | fragment
  | query
  | specialQuery
  | path
  | credentials
deriving DecidableEq, Repr, Inhabited

/-- The ASCII characters beyond the controls that a set encodes. -/
def EncodeSet.extra : EncodeSet → List Char
  | controls => []
  | fragment => [' ', '"', '<', '>', '`']
  | query => [' ', '"', '#', '<', '>']
  | specialQuery => [' ', '"', '#', '<', '>', '\'']
  | path => [' ', '"', '<', '>', '`', '#', '?', '{', '}']
  | credentials =>
    [' ', '"', '<', '>', '`', '#', '?', '{', '}', '/', ':', ';', '=', '@', '[', '\\', ']', '^', '|']

/-- Whether a set encodes a character. -/
def EncodeSet.encodes (set : EncodeSet) (c : Char) : Bool :=
  c.toNat < 0x20 || 0x7F ≤ c.toNat || set.extra.contains c

/-- An upper-case hexadecimal digit. -/
def upperHexDigit (n : Nat) : Char :=
  (Nat.digitChar n).toUpper

/-- A byte as `%` and two digits. -/
def percentByte (b : UInt8) : List Char :=
  ['%', upperHexDigit (b.toNat / 16), upperHexDigit (b.toNat % 16)]

/-- A character in a part with the given set. -/
def encodeChar (set : EncodeSet) (c : Char) : List Char :=
  if set.encodes c then (String.utf8EncodeChar c).flatMap percentByte else [c]

/-- A text in a part with the given set. -/
def encode (set : EncodeSet) (cs : List Char) : String :=
  String.ofList (cs.flatMap (encodeChar set))

/-- The value of a hexadecimal digit of either case. -/
def hexValue? (c : Char) : Option Nat :=
  if '0' ≤ c ∧ c ≤ '9' then some (c.toNat - 0x30)
  else if 'a' ≤ c ∧ c ≤ 'f' then some (c.toNat - 0x61 + 10)
  else if 'A' ≤ c ∧ c ≤ 'F' then some (c.toNat - 0x41 + 10)
  else none

/-- The bytes of a text in which `%` and two digits stand for one byte. -/
def percentDecode : List Char → List UInt8
  | '%' :: a :: b :: rest =>
    match hexValue? a, hexValue? b with
    | some x, some y => UInt8.ofNat (16 * x + y) :: percentDecode rest
    | _, _ => 0x25 :: percentDecode (a :: b :: rest)
  | c :: rest => String.utf8EncodeChar c ++ percentDecode rest
  | [] => []
termination_by cs => cs.length

end Hydration.Url
