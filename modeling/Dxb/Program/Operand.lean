import Dxb.Endpoint.Record
import Dxb.Quantity

/-!
# Operands of instructions

The parts that follow an opcode: primitive fields, variable names, type references, the records of
endpoints and quantities, and nested programs.  Each opcode has a list of them
(`Opcode.operands`), and reading and writing go along that list.
-/

namespace Dxb

/-- A variable is named by a text or by a number. -/
inductive VariableName where
  | text (s : String)
  | number (n : UInt16)
deriving DecidableEq, Repr

/-- A reference to a type, with a variation and with the announcement of parameters. -/
structure TypeName where
  space : String
  name : String
  variation : String
  parameters : Bool
deriving DecidableEq, Repr

namespace VariableName

/-- A length byte and a text, or a zero and a number. -/
def read : Reader VariableName := do
  let length ← Reader.number 1
  if length = 0 then number <$> Reader.uint16 else text <$> Reader.text length

def write : VariableName → List UInt8
  | text s => littleEndian 1 (utf8 s).length ++ utf8 s
  | number n => 0 :: littleEndian 2 n.toNat

end VariableName

namespace TypeName

/-- The lengths of all parts stand in front; only an extended reference has a variation and says
whether parameters follow. -/
def read (extended : Bool) : Reader TypeName := do
  let spaceLength ← Reader.number 1
  let nameLength ← Reader.number 1
  let (variationLength, parameters) ←
    if extended then do
      let variationLength ← Reader.number 1
      let parameters ← Reader.uint8
      pure (variationLength, parameters != 0)
    else pure (0, false)
  let space ← Reader.text spaceLength
  let name ← Reader.text nameLength
  let variation ← Reader.text variationLength
  return ⟨space, name, variation, parameters⟩

/-- The bytes of a reference; in an extended one, `flag` stands for whether parameters follow. -/
def writeFlagged (extended : Bool) (flag : UInt8) (t : TypeName) : List UInt8 :=
  littleEndian 1 (utf8 t.space).length ++ littleEndian 1 (utf8 t.name).length ++
    (if extended then littleEndian 1 (utf8 t.variation).length ++ [flag] else []) ++
    utf8 t.space ++ utf8 t.name ++ utf8 t.variation

def write (extended : Bool) (t : TypeName) : List UInt8 :=
  t.writeFlagged extended (if t.parameters then 1 else 0)

end TypeName

/-- The size of a pointer id. -/
def pointerSize : Nat := 26

/-- The kinds of operand. -/
inductive Operand where
  | field (f : Field)
  | variableName
  | typeName (extended : Bool)
  | endpoint
  | quantity
  | program
deriving DecidableEq, Repr

namespace Operand

/-- What an operand holds. -/
@[reducible] def Value : Operand → Type
  | field f => f.Value
  | variableName => VariableName
  | typeName _ => TypeName
  | endpoint => EndpointRecord
  | quantity => QuantityRecord
  | program => List UInt8

/-- A nested program has its length in four bytes in front and must lie within the input. -/
def readProgram : Reader (List UInt8) := do
  let length ← Reader.number 4
  let start ← Reader.position
  (Reader.bytes length).withFault (.nestedOutOfBounds start length)

def read : (o : Operand) → Reader o.Value
  | field f => f.read
  | variableName => VariableName.read
  | typeName extended => TypeName.read extended
  | endpoint => EndpointRecord.read
  | quantity => QuantityRecord.read
  | program => readProgram

def write : (o : Operand) → o.Value → List UInt8
  | field f, x => f.write x
  | variableName, (x : VariableName) => x.write
  | typeName extended, (x : TypeName) => x.write extended
  | endpoint, (x : EndpointRecord) => x.write
  | quantity, (x : QuantityRecord) => x.write
  | program, (x : List UInt8) => littleEndian 4 x.length ++ x

end Operand

/-- The values of a list of operands. -/
@[reducible] def Operands : List Operand → Type
  | [] => Unit
  | o :: os => o.Value × Operands os

namespace Operands

def read : (os : List Operand) → Reader (Operands os)
  | [] => pure ()
  | o :: os => do
    let x ← o.read
    let xs ← read os
    pure (x, xs)

def write : (os : List Operand) → Operands os → List UInt8
  | [], () => []
  | o :: os, (x, xs) => o.write x ++ write os xs

end Operands

namespace Opcode

/-- The operands that follow an opcode, in order. -/
@[reducible] def operands : Opcode → List Operand
  | slotAction _ | remoteAction | childAction => [.field .uint8]
  | connective _ => [.field .uint32]
  | text | url | relativePath => [.field .longText]
  | shortText | elementWithKey => [.field .shortText]
  | buffer => [.field .longBytes]
  | int8 | floatAsInt8 => [.field .int8]
  | int16 => [.field .int16]
  | int32 | floatAsInt32 => [.field .int32]
  | int64 => [.field .int64]
  | float64 => [.field .float64]
  | time => [.field .uint64]
  | quantity => [.quantity]
  | typeName => [.typeName false]
  | extendedType => [.typeName true]
  | scopeBlock => [.program]
  | endpoint _ _ => [.endpoint]
  | pointer | setPointer => [.field (.bytes pointerSize)]
  | initPointer => [.field (.bytes pointerSize), .field .uint32]
  | pointerAction => [.field .uint8, .field (.bytes pointerSize)]
  | readVariable _ | setVariable _ | setInternalReference => [.variableName]
  | initVariable _ => [.variableName, .field .uint32]
  | variableAction _ => [.field .uint8, .variableName]
  | jump | jumpIfTrue | jumpIfFalse | defaultValue | elementWithIntKey => [.field .uint32]
  | objectSlot => [.field .uint16]
  | _ => []

/-- Whether what an opcode begins counts towards the nesting limit. -/
def nests : Opcode → Bool
  | opening _ | connective _ | scopeBlock => true
  | _ => false

end Opcode

/-- An opcode with its operands, or a byte that no opcode has. -/
inductive Instruction where
  | unassigned (byte : UInt8)
  | assigned (op : Opcode) (operands : Operands op.operands)

namespace Instruction

/-- How many scopes and programs may be open within each other. -/
def maxDepth : Nat := 64

/-- Reads what follows the first byte of the instruction at `start`.  Without `room` for another
level, one that opens a level is refused before its operands are looked at. -/
def readRest (room : Bool) (start : Nat) (byte : UInt8) : Reader Instruction :=
  match Opcode.ofByte? byte with
  | none => return unassigned byte
  | some op =>
    if op.nests && !room then Reader.fail (.tooDeep start maxDepth)
    else do return assigned op (← Operands.read op.operands)

def read (room : Bool) : Reader Instruction := do
  let start ← Reader.position
  let byte ← Reader.uint8
  readRest room start byte

def write : Instruction → List UInt8
  | unassigned byte => [byte]
  | assigned op operands => op.byte :: Operands.write op.operands operands

end Instruction

end Dxb
