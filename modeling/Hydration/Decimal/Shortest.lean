/-!
# Shortest decimals

A finite binary float is a point `m · 2 ^ q`, and every real number closer to it
than to its neighbours reads back as that float.  Among the decimals in this
interval the **shortest** one has the fewest digits, and among those it is the
nearest to the point itself.

`shortest` looks for it on the grids of one, two, … seventeen digits: a grid that
has a point in the interval has one next to the float, below it or above it, so
two candidates are enough on each grid.  All comparisons are between natural
numbers.
-/

namespace Hydration.Decimal

/-- A decimal `digits · 10 ^ exponent`. -/
structure Numeral where
  digits : Nat
  exponent : Int
deriving DecidableEq, Repr, Inhabited

/-- A finite positive float `significand · 2 ^ exponent`.  At the lower end of a
binade the neighbour below is only half as far away as the one above. -/
structure Binary where
  significand : Nat
  exponent : Int
  atBinadeStart : Bool
deriving DecidableEq, Repr, Inhabited

/-- The kinds of value that the 64 bits of a float stand for. -/
inductive Reading where
  | zero (negative : Bool)
  | finite (negative : Bool) (magnitude : Binary)
  | infinite (negative : Bool)
  | notANumber
deriving DecidableEq, Repr, Inhabited

/-- Reads the 64 bits of a binary float. -/
def Reading.ofBits (bits : UInt64) : Reading :=
  let n := bits.toNat
  let negative := n / Nat.pow 2 63 == 1
  let biased : Nat := n / Nat.pow 2 52 % Nat.pow 2 11
  let fraction : Nat := n % Nat.pow 2 52
  if biased = 2047 then (if fraction = 0 then .infinite negative else .notANumber)
  else if biased = 0 then
    (if fraction = 0 then .zero negative else .finite negative ⟨fraction, -1074, false⟩)
  else .finite negative ⟨Nat.pow 2 52 + fraction, biased - 1075, fraction == 0 && biased != 1⟩

/-- Whether the 64 bits of a float stand for a number that is not infinite. -/
def isFinite (bits : UInt64) : Bool :=
  match Reading.ofBits bits with
  | .zero _ => true
  | .finite _ _ => true
  | .infinite _ => false
  | .notANumber => false

/-- Compares `a · 2 ^ p` with `b · 10 ^ r`. -/
def comparePowers (a : Nat) (p : Int) (b : Nat) (r : Int) : Ordering :=
  compare (a * Nat.pow 2 p.toNat * Nat.pow 10 (-r).toNat)
    (b * Nat.pow 10 r.toNat * Nat.pow 2 (-p).toNat)

/-- Whether the decimal lies in the interval that reads back as `v`; its ends
belong to it when the significand is even. -/
def Binary.contains (v : Binary) (d : Numeral) : Bool :=
  let even := v.significand % 2 == 0
  let low := comparePowers (4 * v.significand - (if v.atBinadeStart then 1 else 2)) (v.exponent - 2)
    d.digits d.exponent
  let high := comparePowers (4 * v.significand + 2) (v.exponent - 2) d.digits d.exponent
  (low == .lt || (even && low == .eq)) && (high == .gt || (even && high == .eq))

/-- The largest multiple of `10 ^ exponent` that is not above `v`. -/
def Binary.floorAt (v : Binary) (exponent : Int) : Nat :=
  (v.significand * Nat.pow 2 v.exponent.toNat * Nat.pow 10 (-exponent).toNat)
    / (Nat.pow 10 exponent.toNat * Nat.pow 2 (-v.exponent).toNat)

/-- The power of ten at the first digit of `v`. -/
def Binary.leadingExponent (v : Binary) : Int :=
  let estimate : Int :=
    ((Nat.toDigits 10 (v.significand * Nat.pow 2 v.exponent.toNat)).length : Int)
      - (Nat.toDigits 10 (Nat.pow 2 (-v.exponent).toNat)).length
  if v.floorAt estimate = 0 then estimate - 1 else estimate

/-- The decimal on the grid `10 ^ exponent` that reads back as `v`, if there is
one: the nearer of the two neighbours of `v`, the even one when both are as near. -/
def Binary.onGrid (v : Binary) (exponent : Int) : Option Numeral :=
  let below : Numeral := ⟨v.floorAt exponent, exponent⟩
  let above : Numeral := ⟨below.digits + 1, exponent⟩
  match v.contains below, v.contains above with
  | false, false => none
  | true, false => some below
  | false, true => some above
  | true, true =>
    match comparePowers (2 * v.significand) v.exponent (below.digits + above.digits) exponent with
    | .lt => some below
    | .gt => some above
    | .eq => if below.digits % 2 = 0 then some below else some above

/-- A decimal without zeros at the end of its digits. -/
def Numeral.strip (d : Numeral) : Nat → Numeral
  | 0 => d
  | fuel + 1 =>
    if d.digits % 10 = 0 ∧ d.digits ≠ 0 then
      Numeral.strip ⟨d.digits / 10, d.exponent + 1⟩ fuel
    else d

/-- The shortest decimal that reads back as `v`. -/
def Binary.shortest (v : Binary) : Numeral :=
  let leading := v.leadingExponent
  let grids := (List.range 17).map fun (i : Nat) => leading - i
  ((grids.findSome? v.onGrid).getD ⟨v.floorAt (leading - 16), leading - 16⟩).strip 20

end Hydration.Decimal
