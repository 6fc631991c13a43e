import Hydration.Url.Basic
import Hydration.Url.Percent

/-!
# Hosts

The host of a special URL is an IPv6 address in brackets, an IPv4 address, or a
domain.  A domain is percent-decoded, written in lower case, and must not hold a
control character, a space or one of the characters that delimit the parts of a
URL.  It counts as an IPv4 address when its last label is a number, in decimal,
octal or hexadecimal; then all of it must be an address, of one to four numbers,
the last of which fills the remaining bytes.  Only domains in ASCII are accepted.

The host of any other URL is an IPv6 address in brackets or a text without
delimiters, which is kept with its case.

An IPv6 address is written with lower-case digits, and its longest run of two or
more zero pieces, the first of several, is shortened to `::`.
-/

namespace Hydration.Url

/-! ## Numbers -/

/-- The number written by digits of a base, if all are digits of that base. -/
def numberIn? (base : Nat) (cs : List Char) : Option Nat :=
  cs.foldlM (fun n c => do
    let d ← hexValue? c
    if d < base then some (base * n + d) else none) 0

/-- A number of an IPv4 address: `0x` begins a hexadecimal and `0` an octal one. -/
def ipv4Number? (cs : List Char) : Option Nat :=
  match cs with
  | [] => none
  | '0' :: 'x' :: rest => numberIn? 16 rest
  | '0' :: 'X' :: rest => numberIn? 16 rest
  | '0' :: c :: rest => numberIn? 8 (c :: rest)
  | cs => numberIn? 10 cs

/-- The labels of a domain. -/
def labels (cs : List Char) : List (List Char) :=
  cs.foldr (fun c acc =>
    if c = '.' then [] :: acc
    else
      match acc with
      | label :: rest => (c :: label) :: rest
      | [] => [[c]]) [[]]

/-- The labels without an empty one at the end. -/
def labelsBeforeDot (cs : List Char) : List (List Char) :=
  match (labels cs).reverse with
  | [] :: rest => rest.reverse
  | all => all.reverse

/-- Whether the last label of a domain is a number. -/
def endsInNumber (cs : List Char) : Bool :=
  match (labelsBeforeDot cs).getLast? with
  | none => false
  | some last => (!last.isEmpty && last.all Char.isDigit) || (ipv4Number? last).isSome

/-! ## IPv4 -/

/-- The value of an IPv4 address with the given numbers, the last of which fills
the bytes that are left. -/
def ipv4Value? (numbers : List Nat) : Option Nat :=
  match numbers.reverse with
  | [] => none
  | last :: before =>
    let before := before.reverse
    if numbers.length > 4 || before.any (· > 255) || last ≥ Nat.pow 256 (4 - before.length) then
      none
    else
      some (before.zipIdx.foldl (fun value (n, i) => value + n * Nat.pow 256 (3 - i)) last)

/-- Reads an IPv4 address. -/
def ipv4? (cs : List Char) : Option String := do
  let numbers ← (labelsBeforeDot cs).mapM ipv4Number?
  let value ← ipv4Value? numbers
  return s!"{value / 16777216}.{value / 65536 % 256}.{value / 256 % 256}.{value % 256}"

/-! ## IPv6 -/

/-- A decimal byte without leading zeros at the head of the text. -/
def decimalByte? (cs : List Char) : Option (Nat × List Char) :=
  let digits := cs.takeWhile Char.isDigit
  match digits with
  | [] => none
  | '0' :: _ :: _ => none
  | _ => do
    let n ← numberIn? 10 digits
    if n ≤ 255 then some (n, cs.dropWhile Char.isDigit) else none

/-- Four decimal bytes with dots between them, as two pieces. -/
def dottedPieces? (cs : List Char) : Option (List Nat) := do
  let (a, cs) ← decimalByte? cs
  let cs ← afterDot? cs
  let (b, cs) ← decimalByte? cs
  let cs ← afterDot? cs
  let (c, cs) ← decimalByte? cs
  let cs ← afterDot? cs
  let (d, cs) ← decimalByte? cs
  if cs.isEmpty then some [256 * a + b, 256 * c + d] else none
where
  /-- The text after a dot. -/
  afterDot? : List Char → Option (List Char)
    | '.' :: rest => some rest
    | _ => none

/-- The pieces of an IPv6 address from here on: those before `::` and those after
it, if it occurs.  `split` says that `::` has been seen; the first argument bounds
the number of pieces that may follow. -/
def ipv6Pieces? : Nat → Bool → List Char → Option (List Nat × Option (List Nat))
  | _, _, [] => some ([], none)
  | 0, _, _ => none
  | room + 1, split, ':' :: rest =>
    if split then none
    else (ipv6Pieces? room true rest).map fun (after, _) => ([], some after)
  | room + 1, split, cs =>
    let digits := (cs.take 4).takeWhile fun c => (hexValue? c).isSome
    let value := (numberIn? 16 digits).getD 0
    match cs.drop digits.length with
    | [] => some ([value], none)
    | ':' :: [] => none
    | ':' :: rest =>
      (ipv6Pieces? room split rest).map fun (before, after) => (value :: before, after)
    | '.' :: _ =>
      if digits.isEmpty || room = 0 then none
      else (dottedPieces? cs).map fun pieces => (pieces, none)
    | _ => none

/-- The eight pieces of an IPv6 address. -/
def ipv6? (cs : List Char) : Option (List Nat) := do
  let (before, after) ← match cs with
    | ':' :: ':' :: rest => (ipv6Pieces? 7 true rest).map fun (after, _) => ([], some after)
    | ':' :: _ => none
    | [] => none
    | [_] => none
    | cs => ipv6Pieces? 8 false cs
  match after with
  | none => if before.length = 8 then some before else none
  | some after =>
    if before.length + after.length ≤ 8 then
      some (before ++ List.replicate (8 - before.length - after.length) 0 ++ after)
    else none

/-- Where the run of zeros that is shortened begins, and its length. -/
def longestZeroRun (pieces : List Nat) : Nat × Nat :=
  (List.range pieces.length).foldl (fun best i =>
    let run := ((pieces.drop i).takeWhile (· = 0)).length
    if best.2 < run then (i, run) else best) (0, 0)

/-- Pieces with colons between them. -/
def piecesText (pieces : List Nat) : String :=
  String.intercalate ":" (pieces.map fun n => String.ofList (Nat.toDigits 16 n))

/-- The written form of an IPv6 address. -/
def ipv6Text (pieces : List Nat) : String :=
  let (start, length) := longestZeroRun pieces
  if length < 2 then piecesText pieces
  else piecesText (pieces.take start) ++ "::" ++ piecesText (pieces.drop (start + length))

/-- Reads an IPv6 address whose opening bracket has been read. -/
def bracketed (cs : List Char) : Except UrlError String :=
  match cs.reverse with
  | ']' :: inner =>
    match ipv6? inner.reverse with
    | some pieces => .ok ("[" ++ ipv6Text pieces ++ "]")
    | none => .error .invalidIpv6Address
  | _ => .error .invalidIpv6Address

/-! ## Domains -/

/-- The characters that no domain may hold. -/
def isForbiddenInDomain (c : Char) : Bool :=
  c.toNat ≤ 0x20 || c.toNat == 0x7F
    || ['%', '#', '/', ':', '<', '>', '?', '@', '[', '\\', ']', '^', '|'].contains c

/-- The characters that no other host may hold. -/
def isForbiddenInHost (c : Char) : Bool :=
  ['\x00', '\t', '\n', '\r', ' ', '#', '/', ':', '<', '>', '?', '@', '[', '\\', ']', '^',
    '|'].contains c

/-- Reads a domain: decoded and in lower case. -/
def domain? (cs : List Char) : Option (List Char) :=
  let bytes := percentDecode cs
  if bytes.all (· < 0x80) then
    let decoded := bytes.map fun b => (Char.ofNat b.toNat).toLower
    if decoded.any isForbiddenInDomain then none else some decoded
  else none

/-- Reads the host of a special URL. -/
def specialHost (cs : List Char) : Except UrlError String :=
  match cs with
  | '[' :: rest => bracketed rest
  | cs =>
    match domain? cs with
    | none => .error .invalidDomainName
    | some [] => .error .emptyHost
    | some domain =>
      if endsInNumber domain then
        match ipv4? domain with
        | some address => .ok address
        | none => .error .invalidIpv4Address
      else .ok (String.ofList domain)

/-- Reads the host of a URL that is not special. -/
def ordinaryHost (cs : List Char) : Except UrlError String :=
  match cs with
  | '[' :: rest => bracketed rest
  | cs =>
    if cs.any isForbiddenInHost then .error .invalidDomainCharacter
    else .ok (encode .controls cs)

end Hydration.Url
