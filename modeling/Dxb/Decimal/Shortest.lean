import Dxb.Decimal.Ratio

/-!
# The fewest digits that read back

A binary64 number stands for the reals that round to it.  `Binary.shortest` is the decimal with the
fewest digits among them, the nearest to the number where there are two, and the upper one where
both are equally near.  Everything is decided in exact natural arithmetic.
-/

namespace Dxb

/-- A positive finite number `mantissa * 2 ^ exponent`.  Its lower neighbour is only half as far
away as the upper one when `narrowBelow` holds. -/
structure Binary where
  mantissa : Nat
  exponent : Int
  narrowBelow : Bool
deriving DecidableEq, Repr

/-- `digits * 10 ^ exponent`. -/
structure Decimal where
  digits : Nat
  exponent : Int
deriving DecidableEq, Repr

namespace Decimal

/-- Moves at most `fuel` zeros at the end of the digits into the exponent. -/
def stripZeros (d : Decimal) : (fuel : Nat) → Decimal
  | 0 => d
  | fuel + 1 =>
    if d.digits % 10 = 0 then stripZeros ⟨d.digits / 10, d.exponent + 1⟩ fuel else d

/-- All digits written out, without an exponent. -/
def text (d : Decimal) : String :=
  if 0 ≤ d.exponent then Digits.decimal (d.digits * 10 ^ d.exponent.toNat)
  else Ratio.fixed d.digits (-d.exponent).toNat

end Decimal

namespace Binary

/-- Compares `n * 2 ^ i` with `d`. -/
def compareScaled (n : Nat) (i : Int) (d : Decimal) : Ordering :=
  compare (n * 2 ^ i.toNat * 10 ^ (-d.exponent).toNat)
    (d.digits * 10 ^ d.exponent.toNat * 2 ^ (-i).toNat)

/-- Whether a decimal is among the reals that round to the number: halfway to either neighbour, the
ends included when the mantissa is even.  Distances are counted in quarters of the last place. -/
def readsAs (x : Binary) (d : Decimal) : Bool :=
  let low := compareScaled (4 * x.mantissa - if x.narrowBelow then 1 else 2) (x.exponent - 2) d
  let high := compareScaled (4 * x.mantissa + 2) (x.exponent - 2) d
  if x.mantissa % 2 = 0 then low.isLE && high.isGE else low.isLT && high.isGT

/-- The largest multiple of `10 ^ e` that is not above the number, in units of `10 ^ e`. -/
def floorAt (x : Binary) (e : Int) : Nat :=
  (x.mantissa * 2 ^ x.exponent.toNat * 10 ^ (-e).toNat) / (2 ^ (-x.exponent).toNat * 10 ^ e.toNat)

/-- The decimal with last place `10 ^ e` that reads as the number and is nearest to it. -/
def nearestAt? (x : Binary) (e : Int) : Option Decimal :=
  let n := x.floorAt e
  let below : Decimal := ⟨n, e⟩
  let above : Decimal := ⟨n + 1, e⟩
  match x.readsAs below, x.readsAs above with
  | true, true =>
    -- twice the number against the sum of its two neighbours
    if (compareScaled (2 * x.mantissa) x.exponent ⟨2 * n + 1, e⟩).isLT then some below
    else some above
  | true, false => some below
  | false, true => some above
  | false, false => none

/-- The least `k` for which the number is below `10 ^ k`. -/
def scale (x : Binary) : Int :=
  let guess := Int.fdiv ((x.mantissa.log2 + x.exponent) * 30103) 100000
  let under (k : Int) : Bool := (compareScaled x.mantissa x.exponent ⟨1, k⟩).isLT
  ([guess - 1, guess, guess + 1].find? under).getD (guess + 2)

/-- The exact value. -/
def exact (x : Binary) : Decimal :=
  if 0 ≤ x.exponent then ⟨x.mantissa * 2 ^ x.exponent.toNat, 0⟩
  else ⟨x.mantissa * 5 ^ (-x.exponent).toNat, x.exponent⟩

/-- The shortest decimal that reads as the number; seventeen digits are enough. -/
def shortest (x : Binary) : Decimal :=
  let k := x.scale
  let found := (List.range 17).findSome? fun (i : Nat) => x.nearestAt? (k - 1 - i)
  (found.getD x.exact).stripZeros 17

end Binary

end Dxb
