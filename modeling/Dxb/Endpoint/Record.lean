import Dxb.Bytes.Field
import Dxb.Endpoint.Target

/-!
# Endpoint records

The wire form of an endpoint: the lengths of the name, of the list of subspaces and of the
instance, and then these.  A record is read as a whole before anything in it is judged, so that a
record with a bad name leaves the cursor at the next instruction.
-/

namespace Dxb

/-- The instance part of a record, told apart by its length. -/
inductive RecordInstance where
  /-- Length zero. -/
  | any
  /-- Length 255. -/
  | absent
  | text (s : String)
deriving DecidableEq, Repr

structure EndpointRecord where
  name : List UInt8
  /-- Subspaces are read over; an empty one stands for any. -/
  subspaces : List String
  inst : RecordInstance
deriving DecidableEq, Repr

namespace RecordInstance

def length : RecordInstance → Nat
  | any => 0
  | absent => 255
  | text s => (utf8 s).length

def bytes : RecordInstance → List UInt8
  | any | absent => []
  | text s => utf8 s

/-- Reads the instance whose length was given. -/
def read (length : Nat) : Reader RecordInstance :=
  if length = 0 then pure any
  else if length = 255 then pure absent
  else text <$> Reader.text length

def ref : RecordInstance → InstanceRef
  | any => .any
  | absent => .main
  | text s => .text s

end RecordInstance

namespace EndpointRecord

/-- A subspace: its length and its text.  The length stays read when the text is none. -/
def readSubspace : Reader String := do Reader.text (← Reader.number 1)

def read : Reader EndpointRecord := do
  let nameLength ← Reader.number 1
  let subspaceCount ← Reader.number 1
  let instanceLength ← Reader.number 1
  let name ← Reader.bytes nameLength
  let subspaces ← Reader.repeated readSubspace subspaceCount
  let inst ← RecordInstance.read instanceLength
  return ⟨name, subspaces, inst⟩

def write (r : EndpointRecord) : List UInt8 :=
  littleEndian 1 r.name.length ++ littleEndian 1 r.subspaces.length ++
    littleEndian 1 r.inst.length ++ r.name ++
    r.subspaces.flatMap (fun s => littleEndian 1 (utf8 s).length ++ utf8 s) ++ r.inst.bytes

/-- The endpoint of a kind that a record describes. -/
def endpoint? (kind : EndpointKind) (r : EndpointRecord) : Except EndpointError Endpoint :=
  Endpoint.ofBytes? kind r.name r.inst.ref

/-- The target of a record that follows an opcode; after an opcode of something else it is an
id. -/
def target? (opcode : Opcode) (r : EndpointRecord) : Except EndpointError Target :=
  let (kind, wild) := match opcode with
    | .endpoint kind wild => (kind, wild)
    | _ => (.id, false)
  Target.ofEndpoint wild <$> r.endpoint? kind

end EndpointRecord

/-- An id is written as its whole slot, any other name as its text. -/
def EndpointName.recorded : EndpointName → List UInt8
  | id slot => slot.bytes
  | name => utf8 name.text

namespace Endpoint

/-- The record of an endpoint. -/
def record (e : Endpoint) : EndpointRecord where
  name := e.name.recorded
  subspaces := []
  inst := if e.isMain then .absent else .text e.instanceText

end Endpoint

end Dxb
