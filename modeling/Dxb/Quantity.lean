import Dxb.Bytes.Field
import Dxb.Bytes.Hex
import Dxb.Decimal.Ratio
import Dxb.Unit

/-!
# Quantities

A quantity is a rational number with a product of units in normal form.  On the wire it is a
`QuantityRecord`, which is read as a whole before anything in it is judged.
-/

namespace Dxb

/-- Why numbers and units do not make a quantity. -/
inductive QuantityError where
  | zeroDenominator
  | unknownUnit (code : UInt8)
  | tooLarge (bytes limit : Nat)
deriving DecidableEq, Repr

def QuantityError.message : QuantityError → String
  | zeroDenominator => "quantity denominator is zero"
  | unknownUnit code => s!"unknown unit code 0x{Hex.lower [code]}"
  | tooLarge bytes limit => s!"quantity magnitude of {bytes} bytes exceeds {limit}"

structure Quantity where
  value : Rat
  unit : UnitProduct
deriving DecidableEq

namespace Quantity

/-- The widest numerator or denominator, so that its length has two bytes. -/
def maxMagnitudeBytes : Nat := 65535

/-- The quantity `± numerator / denominator`; the bound is on the reduced fraction. -/
def ofFraction? (negative : Bool) (numerator denominator : Nat) (unit : UnitProduct) :
    Except QuantityError Quantity :=
  if denominator = 0 then .error .zeroDenominator
  else
    let value := mkRat (if negative then -numerator else numerator) denominator
    let wide (n : Nat) : Bool := maxMagnitudeBytes < byteLength n
    match [value.num.natAbs, value.den].find? wide with
    | some n => .error (.tooLarge (byteLength n) maxMagnitudeBytes)
    | none => .ok ⟨value, unit.normalize⟩

def ofInt (n : Int) (unit : UnitProduct) : Quantity := ⟨n, unit.normalize⟩

def isNegative (q : Quantity) : Bool := q.value.num < 0

def numerator (q : Quantity) : Nat := q.value.num.natAbs

def denominator (q : Quantity) : Nat := q.value.den

/-- The unit in base units, `x` when there is none. -/
def unitText (q : Quantity) : String :=
  let text := q.unit.text
  if text = "" then MeasureUnit.dimensionless.symbol else text

/-- The quantity in base units; none where writing its value panics. -/
def baseText? (q : Quantity) : Option String := (Ratio.text? q.value).map (· ++ q.unitText)

/-- The quantity with a derived unit where one fits, its value scaled accordingly; none where
writing that value panics. -/
def text? (q : Quantity) : Option String :=
  let (unit, divisor) := UnitAlias.shorten q.unit.text
  let unit := if unit = "" then MeasureUnit.dimensionless.symbol else unit
  (Ratio.text? (mkRat q.value.num (q.value.den * divisor))).map (· ++ unit)

end Quantity

/-- The wire form of a quantity: a sign (zero is negative), both magnitudes highest byte first, and
the codes and exponents of the units. -/
structure QuantityRecord where
  sign : UInt8
  numerator : List UInt8
  denominator : List UInt8
  factors : List (UInt8 × Int8)
deriving DecidableEq, Repr

namespace QuantityRecord

def readFactor : Reader (UInt8 × Int8) := do
  let code ← Reader.uint8
  let exponent ← Reader.int8
  return (code, exponent)

def read : Reader QuantityRecord := do
  let sign ← Reader.uint8
  let numeratorLength ← Reader.number 2
  let denominatorLength ← Reader.number 2
  let numerator ← Reader.bytes numeratorLength
  let denominator ← Reader.bytes denominatorLength
  let count ← Reader.number 1
  let factors ← Reader.repeated readFactor count
  return ⟨sign, numerator, denominator, factors⟩

def write (r : QuantityRecord) : List UInt8 :=
  [r.sign] ++ littleEndian 2 r.numerator.length ++ littleEndian 2 r.denominator.length ++
    r.numerator ++ r.denominator ++ littleEndian 1 r.factors.length ++
    r.factors.flatMap fun (code, exponent) => [code, exponent.toUInt8]

/-- The unit factors, if every code is known. -/
def unit? (r : QuantityRecord) : Except QuantityError UnitProduct :=
  r.factors.mapM fun (code, exponent) =>
    match MeasureUnit.ofCode? code with
    | some u => .ok ⟨u, exponent⟩
    | none => .error (.unknownUnit code)

/-- The quantity that a record describes. -/
def quantity? (r : QuantityRecord) : Except QuantityError Quantity := do
  let unit ← r.unit?
  Quantity.ofFraction? (r.sign == 0) (ofBigEndian r.numerator) (ofBigEndian r.denominator) unit

end QuantityRecord

/-- The record of a quantity. -/
def Quantity.record (q : Quantity) : QuantityRecord where
  sign := if q.isNegative then 0 else 1
  numerator := bigEndian q.numerator
  denominator := bigEndian q.denominator
  factors := q.unit.map fun f => (f.unit.code, f.exponent)

namespace Quantity

/-- Reads a record as a whole, and only then says which quantity it describes. -/
def decode : Reader (Except QuantityError Quantity) :=
  QuantityRecord.quantity? <$> QuantityRecord.read

def encode (q : Quantity) : List UInt8 := q.record.write

end Quantity

end Dxb
