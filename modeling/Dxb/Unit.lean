/-!
# Units

Base units with their codes and symbols, products of powers of units, and the derived units that
stand for some of these products in a text.
-/

namespace Dxb

/-- A base unit. -/
inductive MeasureUnit where
  | second | metre | gram | ampere | kelvin | mole | candela
  | euro | usDollar | pound | rouble | yuan | yen
  | calendarMonth | unyt
  | dimensionless
deriving DecidableEq, Repr

namespace MeasureUnit

def all : List MeasureUnit :=
  [second, metre, gram, ampere, kelvin, mole, candela, euro, usDollar, pound, rouble, yuan, yen,
    calendarMonth, unyt, dimensionless]

def code : MeasureUnit → UInt8
  | second => 0x00
  | metre => 0x01
  | gram => 0x02
  | ampere => 0x03
  | kelvin => 0x04
  | mole => 0x05
  | candela => 0x06
  | euro => 0xa0
  | usDollar => 0xa1
  | pound => 0xa2
  | rouble => 0xa3
  | yuan => 0xa4
  | yen => 0xa5
  | calendarMonth => 0xc0
  | unyt => 0xd0
  | dimensionless => 0xff

def ofCode? (code : UInt8) : Option MeasureUnit := all.find? (·.code == code)

/-- The full symbol. -/
def symbol : MeasureUnit → String
  | second => "s"
  | metre => "m"
  | gram => "g"
  | ampere => "A"
  | kelvin => "K"
  | mole => "mol"
  | candela => "cd"
  | euro => "EUR"
  | usDollar => "USD"
  | pound => "GBP"
  | rouble => "RUB"
  | yuan => "CNY"
  | yen => "JPY"
  | calendarMonth => "Cmo"
  | unyt => "UNYT"
  | dimensionless => "x"

/-- The symbol in a text: currencies that have a sign use it. -/
def shortSymbol : MeasureUnit → String
  | euro => "€"
  | usDollar => "$"
  | pound => "£"
  | rouble => "₽"
  | yuan => "¥"
  | u => u.symbol

theorem ofCode?_code (u : MeasureUnit) : ofCode? u.code = some u := by cases u <;> decide

theorem code_of_ofCode? {c : UInt8} {u : MeasureUnit} (h : ofCode? c = some u) : u.code = c := by
  simpa using List.find?_some h

theorem code_inj {u v : MeasureUnit} (h : u.code = v.code) : u = v := by
  have hu := ofCode?_code u
  rw [h, ofCode?_code] at hu
  exact (Option.some.inj hu).symm

end MeasureUnit

/-- A power of a unit. -/
structure UnitFactor where
  unit : MeasureUnit
  exponent : Int8
deriving DecidableEq, Repr

/-- Whether a factor stands in front of another: positive exponents do, and then higher codes. -/
def UnitFactor.precedes (f g : UnitFactor) : Bool :=
  if decide (0 < f.exponent) = decide (0 < g.exponent) then g.unit.code < f.unit.code
  else 0 < f.exponent

/-- A product of powers of units. -/
abbrev UnitProduct := List UnitFactor

/-- Exponents summed up for each unit, in the order in which the units were met.  A sum has two
bytes. -/
abbrev ExponentSums := List (MeasureUnit × Int16)

namespace ExponentSums

/-- Adds an exponent to the sum of its unit. -/
def add (u : MeasureUnit) (e : Int8) : ExponentSums → ExponentSums
  | [] => [(u, e.toInt16)]
  | (v, sum) :: sums =>
    if v = u then (v, sum + e.toInt16) :: sums else (v, sum) :: add u e sums

/-- Goes on with a factor.  The dimensionless unit has no sum. -/
def step (sums : ExponentSums) (f : UnitFactor) : ExponentSums :=
  if f.unit = .dimensionless then sums else add f.unit f.exponent sums

/-- The sums of a product, one factor after another. -/
def ofProduct (fs : UnitProduct) : ExponentSums := fs.foldl step []

end ExponentSums

namespace UnitProduct

/-- Puts a factor behind those that precede it. -/
def place (f : UnitFactor) : UnitProduct → UnitProduct
  | [] => [f]
  | g :: fs => if g.precedes f then g :: place f fs else f :: g :: fs

/-- The factors in order. -/
def sorted (fs : UnitProduct) : UnitProduct := fs.foldr place []

/-- The normal form: each unit at most once, no zero exponent, positive exponents first, each group
by descending code.  Sums beyond one byte are clamped to it. -/
def normalize (fs : UnitProduct) : UnitProduct :=
  let sums := (ExponentSums.ofProduct fs).filter fun s => decide (s.2 ≠ 0)
  sorted (sums.map fun s => ⟨s.1, Int8.ofIntClamp s.2.toInt⟩)

/-- The power of one unit, without its sign. -/
def factorText (f : UnitFactor) : String :=
  let magnitude := f.exponent.toInt.natAbs
  f.unit.shortSymbol ++ if magnitude = 1 then "" else "^" ++ toString magnitude

/-- The factors after the first, each behind the sign of its exponent. -/
def tailText (fs : UnitProduct) : String :=
  String.join (fs.map fun f => (if f.exponent < 0 then "/" else "*") ++ factorText f)

/-- The product as `a*b^2/c`; a product that starts below the line starts with `x/`. -/
def text : UnitProduct → String
  | [] => ""
  | f :: fs => (if f.exponent < 0 then "x/" else "") ++ factorText f ++ tailText fs

end UnitProduct

/-- A derived unit, the expression it replaces, and what the value is divided by for it. -/
structure UnitAlias where
  expression : String
  name : String
  divisor : Nat

namespace UnitAlias

def all : List UnitAlias :=
  [⟨"g*m^2/A/s^3", "V", 1000⟩,
    ⟨"g*m^2/s^2", "J", 1000⟩,
    ⟨"g*m/s^2", "N", 1000⟩,
    ⟨"g*m^2/s^3", "W", 1000⟩,
    ⟨"A^2*s^4/g/m^2", "F", 1000⟩,
    ⟨"g*m^2/A^2/s^3", "Ω", 1000⟩,
    ⟨"x/s", "Hz", 1⟩,
    ⟨"A*s", "C", 1⟩,
    ⟨"g", "kg", 1000⟩]

/-- What follows `start` at the front of a text. -/
def afterStart? : (start text : List Char) → Option (List Char)
  | [], text => some text
  | c :: start, d :: text => if c = d then afterStart? start text else none
  | _ :: _, [] => none

/-- Whether a factor ends before the given rest of a text. -/
def isBoundary : List Char → Bool
  | [] => true
  | c :: _ => c == '*' || c == '/'

/-- Replaces the expression at the start of a text by the name, if a factor ends after it. -/
def replaceIn? (a : UnitAlias) (text : List Char) : Option (List Char) :=
  match afterStart? a.expression.toList text with
  | some rest => if isBoundary rest then some (a.name.toList ++ rest) else none
  | none => none

/-- Tries one alias after another on a text, with the divisor so far. -/
def applyEach (text : List Char) (divisor : Nat) : List UnitAlias → List Char × Nat
  | [] => (text, divisor)
  | a :: rest =>
    match a.replaceIn? text with
    | some text' => applyEach text' (divisor * a.divisor) rest
    | none => applyEach text divisor rest

/-- A text with the derived units put in, and what the value is divided by for them. -/
def shorten (text : String) : String × Nat :=
  let (chars, divisor) := applyEach text.toList 1 all
  (String.ofList chars, divisor)

end UnitAlias

end Dxb
