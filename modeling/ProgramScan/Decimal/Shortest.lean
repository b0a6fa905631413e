/-!
# Shortest decimals of binary fractions

A finite binary floating point number is `m · 2 ^ q` with a natural number `m`.  The numbers nearer
to it than to its neighbours form an interval, whose ends belong to it when `m` is even.  The number
is written with the decimal in that interval that lies on the coarsest grid `10 ^ i`, and of those
the nearest one; then reading the decimal back gives the same number.

* `Binary`        sign, significand and exponent, decoded from the bits of a `Format`;
* `shortest`      the significand and the exponent of the chosen decimal;
* `positional`    the decimal written out without exponent.
-/

namespace ProgramScan.Decimal

/-- Widths of the exponent and fraction fields of a floating point format. -/
structure Format where
  exponentBits : Nat
  fractionBits : Nat

def single : Format := ⟨8, 23⟩

def double : Format := ⟨11, 52⟩

/-- A floating point value. -/
inductive Value
  | nan
  | infinity (negative : Bool)
  /-- `significand · 2 ^ exponent`; `narrowBelow` says that the neighbour below is half as far
  away as the neighbour above -/
  | finite (negative : Bool) (significand : Nat) (exponent : Int) (narrowBelow : Bool)

def Format.decode (f : Format) (bits : Nat) : Value :=
  let fraction := bits % Nat.pow 2 f.fractionBits
  let biased := bits / Nat.pow 2 f.fractionBits % Nat.pow 2 f.exponentBits
  let negative := bits / Nat.pow 2 (f.fractionBits + f.exponentBits) % 2 == 1
  let bias : Int := Nat.pow 2 (f.exponentBits - 1) - 1 + f.fractionBits
  if biased = Nat.pow 2 f.exponentBits - 1 then
    if fraction = 0 then .infinity negative else .nan
  else if biased = 0 then .finite negative fraction (1 - bias) false
  else
    .finite negative (fraction + Nat.pow 2 f.fractionBits) (biased - bias)
      (fraction = 0 && 1 < biased)

/-- The interval around `4 · m` quarters, in units of `2 ^ exponent`. -/
structure Interval where
  low : Nat
  middle : Nat
  high : Nat
  exponent : Int
  closed : Bool

/-- the numbers that round to `m · 2 ^ q` -/
def Interval.around (m : Nat) (q : Int) (narrowBelow : Bool) : Interval :=
  { low := if narrowBelow then 4 * m - 1 else 4 * m - 2
    middle := 4 * m
    high := 4 * m + 2
    exponent := q - 2
    closed := m % 2 == 0 }

/-- the multiple of `10 ^ i` in the interval that is nearest to its middle, in units of `10 ^ i` -/
def Interval.gridPoint? (v : Interval) (i : Int) : Option Nat :=
  let scale := Nat.pow 2 v.exponent.toNat * Nat.pow 10 (-i).toNat
  let unit := Nat.pow 10 i.toNat * Nat.pow 2 (-v.exponent).toNat
  let below := v.middle * scale / unit
  let above := below + 1
  let fits (a b : Nat) : Bool := a < b || (v.closed && a == b)
  let belowFits := fits (v.low * scale) (below * unit)
  let aboveFits := fits (above * unit) (v.high * scale)
  if belowFits && aboveFits then
    if 2 * (v.middle * scale - below * unit) < unit then some below else some above
  else if belowFits then some below
  else if aboveFits then some above
  else none

/-- the first grid at or below `10 ^ i` that has a point in the interval -/
def Interval.search (v : Interval) : Nat → Int → Nat × Int
  | 0, i => (0, i)
  | steps + 1, i =>
    match v.gridPoint? i with
    | some n => (n, i)
    | none => v.search steps (i - 1)

/-- a grid that is too coarse for any number below `2 ^ bits` -/
def coarseExponent (bits : Int) : Int := bits * 30103 / 100000 + 2

def bitLength (n : Nat) : Nat := if n = 0 then 0 else n.log2 + 1

/-- significand and exponent of the decimal for `m · 2 ^ q`, where `m` is positive -/
def shortest (m : Nat) (q : Int) (narrowBelow : Bool) : Nat × Int :=
  (Interval.around m q narrowBelow).search 40 (coarseExponent (bitLength m + q))

/-- `n · 10 ^ i` without exponent -/
def positional (n : Nat) (i : Int) : List Char :=
  let digits := Nat.toDigits 10 n
  let places := (-i).toNat
  if places = 0 then digits ++ List.replicate i.toNat '0'
  else if places < digits.length then
    digits.take (digits.length - places) ++ '.' :: digits.drop (digits.length - places)
  else '0' :: '.' :: (List.replicate (places - digits.length) '0' ++ digits)

def Value.text : Value → String
  | .nan => "NaN"
  | .infinity negative => if negative then "-inf" else "inf"
  | .finite negative m q narrowBelow =>
    let magnitude :=
      if m = 0 then ['0']
      else
        let (n, i) := shortest m q narrowBelow
        positional n i
    String.ofList (if negative then '-' :: magnitude else magnitude)

end ProgramScan.Decimal
