import Dxb.Calendar
import Dxb.Decimal.Shortest
import Dxb.Program.Operand
import Dxb.Text.Quoted

/-!
# Operands as text

How buffers, numbers, times, pointers, variables, types and slots are written in a script.
-/

namespace Dxb.Literal

def buffer (bytes : List UInt8) : String := "`" ++ Hex.upper bytes ++ "`"

/-- A number in base sixteen, without leading zeros. -/
def hex (n : Nat) : String := String.ofList (Nat.toDigits 16 n)

/-- A whole number keeps one decimal place. -/
def whole (n : Int) : String := toString n ++ ".0"

/-- The text of a binary64 number given by its bits.  Whole numbers below `10 ^ 16` keep one decimal
place, the sign of zero included; others have the fewest digits that read back, none of them in an
exponent. -/
def float (bits : UInt64) : String :=
  let sign := if bits >>> 63 = 1 then "-" else ""
  let power := ((bits >>> 52) &&& 0x7ff).toNat
  let fraction := (bits &&& 0xfffffffffffff).toNat
  if power = 0x7ff then if fraction = 0 then sign ++ "infinity" else "nan"
  else
    let x : Binary :=
      if power = 0 then ⟨fraction, -1074, false⟩
      else ⟨2 ^ 52 + fraction, power - 1075, fraction = 0 && power > 1⟩
    let scaled := x.mantissa * 2 ^ x.exponent.toNat
    let unit := 2 ^ (-x.exponent).toNat
    if scaled % unit = 0 ∧ scaled / unit < 10 ^ 16 then
      sign ++ Digits.decimal (scaled / unit) ++ ".0"
    else sign ++ x.shortest.text

/-- An instant in UTC between tildes, if it has a date. -/
def time? (millis : Nat) : Option String :=
  (Calendar.text? millis).map fun t => "~" ++ t ++ "~"

/-- A run of zero bytes: two digits for one of them, `x` and a digit for up to fifteen. -/
def zeroRun (count : Nat) : List Char :=
  (List.replicate (count / 15) ['x', 'F']).flatten ++
    match count % 15 with
    | 0 => []
    | 1 => ['0', '0']
    | n => ['x', Hex.digit 'A' n]

/-- The text of an id with `zeros` zero bytes in front of it. -/
def pointerFrom (zeros : Nat) : List UInt8 → List Char
  | [] => zeroRun zeros
  | b :: rest =>
    if b = 0 then pointerFrom (zeros + 1) rest
    else zeroRun zeros ++ Hex.digits 'A' [b] ++ pointerFrom 0 rest

/-- A pointer id in hex, its runs of zero bytes shortened. -/
def pointerId (id : List UInt8) : String := String.ofList (pointerFrom 0 id)

def pointer (id : List UInt8) : String := "$" ++ pointerId id

/-- The sign in front of the variables of a name space. -/
def sigil : VariableSpace → String
  | .label => "$"
  | .internal => "#"

def variableName (sigil : String) : VariableName → String
  | .text s => sigil ++ s
  | .number n => sigil ++ hex n.toNat

/-- A type between angle brackets; the closing one is left to whoever writes the parameters. -/
def typeName (t : TypeName) : String :=
  "<" ++ (if t.space = "" ∨ t.space = "std" then "" else t.space ++ ":") ++ t.name ++
    (if t.variation = "" then "" else "/" ++ t.variation) ++ if t.parameters then "" else ">"

/-- A slot of an object; five of them have names. -/
def objectSlot (slot : UInt16) : String :=
  match slot.toNat with
  | 0xfef0 => "#write"
  | 0xfef1 => "#read"
  | 0xfef2 => "#exec"
  | 0xfef3 => "#get"
  | 0xfef4 => "#set"
  | n => "#" ++ hex n

end Dxb.Literal
