import Dxb.Digits

/-!
# Rational numbers as text

A rational with a finite decimal expansion is written as that expansion, with no more places than
it needs and a digit on either side of the point; any other as numerator, slash and denominator.
An expansion with too many places cannot be written: the attempt panics.
-/

namespace Dxb.Ratio

/-- Divides `n` by `p` as often as it goes, at most `fuel` times, and counts onto `count`. -/
def divideOut (p : Nat) : (fuel count n : Nat) → Nat × Nat
  | 0, count, n => (count, n)
  | fuel + 1, count, n =>
    if n % p = 0 then divideOut p fuel (count + 1) (n / p) else (count, n)

/-- The least number of decimal places in which `1 / den` can be written, if there is one. -/
def places? (den : Nat) : Option Nat :=
  let (twos, rest) := divideOut 2 (bitLength den) 0 den
  let (fives, rest) := divideOut 5 (bitLength den) 0 rest
  if rest = 1 then some (max twos fives) else none

/-- `n / 10 ^ places` with exactly that many places, however many. -/
def fixed (n places : Nat) : String :=
  let digits := (Digits.decimal n).toList
  if places = 0 then String.ofList digits
  else
    let padded := List.replicate (places + 1 - digits.length) '0' ++ digits
    let whole := padded.length - places
    String.ofList (padded.take whole ++ '.' :: padded.drop whole)

/-- The widest field that digits can be padded to with zeros; padding to a wider one panics. -/
def maxWidth : Nat := 65535

/-- The text of a number.  The digits of an expansion are padded until one of them stands in front
of the point; where that panics there is no text. -/
def text? (r : Rat) : Option String :=
  let sign := if r.num < 0 then "-" else ""
  let n := r.num.natAbs
  match places? r.den with
  | some k => if maxWidth < k + 1 then none else some (sign ++ fixed (n * 10 ^ k / r.den) k)
  | none => some (sign ++ Digits.decimal n ++ "/" ++ Digits.decimal r.den)

end Dxb.Ratio
