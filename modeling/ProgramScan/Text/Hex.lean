/-!
# Hexadecimal numerals

* `hexLower w n`   the base-sixteen digits of `n` in lower case, padded with zeros to `w` places;
* `hexUpper w n`   the same in upper case;
* `bytesOfHex?`    the bytes that pairs of digits of either case denote.

A number with more than `w` digits is written in full.
-/

namespace ProgramScan.Text

/-- `text` with zeros in front until it has `width` characters. -/
def padZeros (width : Nat) (text : List Char) : List Char :=
  List.replicate (width - text.length) '0' ++ text

def hexLower (width n : Nat) : String :=
  String.ofList (padZeros width (Nat.toDigits 16 n))

def hexUpper (width n : Nat) : String :=
  String.ofList (padZeros width ((Nat.toDigits 16 n).map Char.toUpper))

/-- the value of a base-sixteen digit of either case -/
def hexDigit? (c : Char) : Option Nat :=
  if '0' ≤ c && c ≤ '9' then some (c.toNat - '0'.toNat)
  else if 'a' ≤ c && c ≤ 'f' then some (c.toNat - 'a'.toNat + 10)
  else if 'A' ≤ c && c ≤ 'F' then some (c.toNat - 'A'.toNat + 10)
  else none

/-- the bytes of a text of digit pairs -/
def bytesOfHex? : List Char → Option (List UInt8)
  | [] => some []
  | [_] => none
  | high :: low :: rest => do
    let h ← hexDigit? high
    let l ← hexDigit? low
    let bytes ← bytesOfHex? rest
    return UInt8.ofNat (16 * h + l) :: bytes

end ProgramScan.Text
