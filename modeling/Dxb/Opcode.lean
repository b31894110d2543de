import Dxb.Opcode.FixedText
import Dxb.Endpoint.Kind

/-!
# The opcode table

Every instruction starts with one byte.  `Opcode` groups the assigned bytes by what they do, so
that a family such as the endpoint opcodes is one constructor with its parameters; `Opcode.byte`
and `Opcode.mnemonic` are the table.

    ofByte? op.byte = some op                            (ofByte?_byte)
    ofByte? b = some op → op.byte = b                    (byte_of_ofByte?)
-/

namespace Dxb

/-- Scopes written between brackets. -/
inductive Bracket where
  | subscope | tuple | array | object
deriving DecidableEq, Repr

/-- Scopes that join a counted number of members. -/
inductive Connective where
  | disjunction | conjunction
deriving DecidableEq, Repr

/-- The two name spaces of variables. -/
inductive VariableSpace where
  | label | internal
deriving DecidableEq, Repr

inductive Opcode where
  | word (w : Word)
  | constant (c : Constant)
  | stdType (t : StdType)
  | slot (s : Slot)
  | setSlot (s : LocalSlot)
  | setSlotReference (s : LocalSlot)
  | slotAction (s : LocalSlot)
  | remoteAction
  | opening (b : Bracket)
  | closing (b : Bracket)
  | connective (c : Connective)
  | cachePoint | cacheReset
  | text | shortText | url | relativePath | buffer
  | int8 | int16 | int32 | int64 | float64 | floatAsInt8 | floatAsInt32
  | wildcard | time | quantity | typeName | extendedType | scopeBlock
  | endpoint (kind : EndpointKind) (wildcard : Bool)
  | pointer | setPointer | initPointer | pointerAction
  | readVariable (space : VariableSpace)
  | setVariable (space : VariableSpace)
  | initVariable (space : VariableSpace)
  | variableAction (space : VariableSpace)
  | setInternalReference
  | childSet | childSetReference | childAction | range
  | jump | jumpIfTrue | jumpIfFalse | defaultValue
  | elementWithKey | elementWithIntKey | elementWithDynamicKey | objectSlot | element
deriving DecidableEq, Repr

namespace Opcode

/-- The byte and the mnemonic of each opcode. -/
def entry : Opcode → UInt8 × String
  | word w => (w.row.byte, w.row.mnemonic)
  | constant c => (c.row.byte, c.row.mnemonic)
  | stdType t => (t.row.byte, t.row.mnemonic)
  | slot s => (s.row.byte, s.row.mnemonic)
  | setSlot s => (s.row.byte + 1, "Set" ++ s.row.mnemonic)
  | setSlotReference s => (s.row.byte + 2, "Set" ++ s.row.mnemonic ++ "Reference")
  | slotAction s => (s.row.byte + 3, s.row.mnemonic ++ "Action")
  | remoteAction => (0x45, "VarRemoteAction")
  | opening .subscope => (0x02, "SubscopeStart")
  | opening .tuple => (0xe4, "TupleStart")
  | opening .array => (0xe0, "ArrayStart")
  | opening .object => (0xe2, "ObjectStart")
  | closing .subscope => (0x03, "SubscopeEnd")
  | closing .tuple => (0xe5, "TupleEnd")
  | closing .array => (0xe1, "ArrayEnd")
  | closing .object => (0xe3, "ObjectEnd")
  | connective .conjunction => (0xdb, "Conjunction")
  | connective .disjunction => (0xdc, "Disjunction")
  | cachePoint => (0x04, "CachePoint")
  | cacheReset => (0x05, "CacheReset")
  | text => (0xc0, "Text")
  | int8 => (0xc1, "Int8")
  | int16 => (0xc2, "Int16")
  | int32 => (0xc3, "Int32")
  | int64 => (0xc4, "Int64")
  | float64 => (0xc5, "Float64")
  | buffer => (0xca, "Buffer")
  | scopeBlock => (0xcb, "ScopeBlock")
  | quantity => (0xcc, "Quantity")
  | floatAsInt32 => (0xcd, "FloatAsInt32")
  | shortText => (0xce, "ShortText")
  | endpoint .person false => (0xcf, "PersonAlias")
  | endpoint .person true => (0xd0, "PersonAliasWildcard")
  | endpoint .institution false => (0xd1, "InstitutionAlias")
  | endpoint .institution true => (0xd2, "InstitutionAliasWildcard")
  | endpoint .bot false => (0xd3, "Bot")
  | endpoint .bot true => (0xd4, "BotWildcard")
  | endpoint .id false => (0xd5, "Endpoint")
  | endpoint .id true => (0xd6, "EndpointWildcard")
  | url => (0xd8, "Url")
  | typeName => (0xd9, "Type")
  | extendedType => (0xda, "ExtendedType")
  | time => (0xdd, "Time")
  | floatAsInt8 => (0xde, "FloatAsInt8")
  | jump => (0x56, "Jmp")
  | jumpIfTrue => (0x57, "Jtr")
  | jumpIfFalse => (0x58, "Jfa")
  | range => (0x74, "Range")
  | relativePath => (0x75, "ResolveRelativePath")
  | defaultValue => (0x77, "Default")
  | readVariable .internal => (0xa4, "InternalVar")
  | setVariable .internal => (0xa5, "SetInternalVar")
  | initVariable .internal => (0xa6, "InitInternalVar")
  | variableAction .internal => (0xa7, "InternalVarAction")
  | setInternalReference => (0xa8, "SetInternalVarReference")
  | readVariable .label => (0xa9, "Label")
  | setVariable .label => (0xaa, "SetLabel")
  | initVariable .label => (0xab, "InitLabel")
  | variableAction .label => (0xac, "LabelAction")
  | pointer => (0xad, "Pointer")
  | setPointer => (0xae, "SetPointer")
  | initPointer => (0xaf, "InitPointer")
  | pointerAction => (0xb0, "PointerAction")
  | childSet => (0xb3, "ChildSet")
  | childSetReference => (0xb4, "ChildSetReference")
  | childAction => (0xb5, "ChildAction")
  | wildcard => (0xb7, "Wildcard")
  | elementWithKey => (0xe6, "ElementWithKey")
  | elementWithIntKey => (0xe7, "ElementWithIntKey")
  | elementWithDynamicKey => (0xe8, "ElementWithDynamicKey")
  | element => (0xea, "Element")
  | objectSlot => (0xef, "InternalObjectSlot")

def byte (op : Opcode) : UInt8 := op.entry.1

def mnemonic (op : Opcode) : String := op.entry.2

/-- Every assigned opcode, each once. -/
def all : List Opcode :=
  Word.all.map word ++ Constant.all.map constant ++ StdType.all.map stdType ++
  Slot.all.map slot ++ LocalSlot.all.map setSlot ++ LocalSlot.all.map setSlotReference ++
  LocalSlot.all.map slotAction ++
  [Bracket.subscope, .tuple, .array, .object].flatMap (fun b => [opening b, closing b]) ++
  EndpointKind.all.flatMap (fun k => [endpoint k false, endpoint k true]) ++
  [VariableSpace.label, .internal].flatMap
    (fun s => [readVariable s, setVariable s, initVariable s, variableAction s]) ++
  [connective .disjunction, connective .conjunction,
    remoteAction, cachePoint, cacheReset, text, shortText, url, relativePath, buffer,
    int8, int16, int32, int64, float64, floatAsInt8, floatAsInt32,
    wildcard, time, quantity, typeName, extendedType, scopeBlock,
    pointer, setPointer, initPointer, pointerAction, setInternalReference,
    childSet, childSetReference, childAction, range,
    jump, jumpIfTrue, jumpIfFalse, defaultValue,
    elementWithKey, elementWithIntKey, elementWithDynamicKey, objectSlot, element]

/-- The opcode of a byte, if it is assigned. -/
def ofByte? (byte : UInt8) : Option Opcode := all.find? (·.byte == byte)

/-- The text of an opcode that prints as a standard type. -/
def stdType? : Opcode → Option String
  | stdType t => some t.row.text
  | _ => none

/-- The sign of the operation that an action byte names, as in `x += y`. -/
def actionSign (byte : UInt8) : String :=
  match ofByte? byte with
  | some (word .add) => "+"
  | some (word .subtract) => "-"
  | some (word .multiply) => "*"
  | some (word .power) => "^"
  | some (word .modulo) => "%"
  | some (word .divide) => "/"
  | some (word .and) => "&"
  | some (word .or) => "|"
  | some (word .createPointer) => ":"
  | _ => "?"

/-! ## Lemmas -/

theorem byte_of_ofByte? {b : UInt8} {op : Opcode} (h : ofByte? b = some op) : op.byte = b := by
  simpa using List.find?_some h

theorem ofByte?_byte_all : ∀ op ∈ all, ofByte? op.byte = some op := by decide +kernel

theorem mem_all (op : Opcode) : op ∈ all := by
  cases op with
  | word w => cases w <;> decide +kernel
  | constant c => cases c <;> decide +kernel
  | stdType t => cases t <;> decide +kernel
  | slot s =>
    cases s with
    | assignable s => cases s <;> decide +kernel
    | _ => decide +kernel
  | setSlot s => cases s <;> decide +kernel
  | setSlotReference s => cases s <;> decide +kernel
  | slotAction s => cases s <;> decide +kernel
  | opening b => cases b <;> decide +kernel
  | closing b => cases b <;> decide +kernel
  | connective c => cases c <;> decide +kernel
  | endpoint k w => cases k <;> cases w <;> decide +kernel
  | readVariable s => cases s <;> decide +kernel
  | setVariable s => cases s <;> decide +kernel
  | initVariable s => cases s <;> decide +kernel
  | variableAction s => cases s <;> decide +kernel
  | _ => decide +kernel

theorem ofByte?_byte (op : Opcode) : ofByte? op.byte = some op :=
  ofByte?_byte_all op (mem_all op)

end Opcode

end Dxb
