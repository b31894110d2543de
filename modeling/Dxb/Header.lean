import Dxb.Calendar
import Dxb.Endpoint.Interning

/-!
# Message headers

A header routes a message and describes its block; the body follows it.  Reading keeps neither the
signature nor the initialisation vector, nor the appspace and the subspaces of the sender, so
writing fills those slots with zeros or leaves them out.  On the wire a sender is an endpoint; in
memory a header holds a handle to it.
-/

namespace Dxb

/-- How a message is secured. -/
inductive Security where
  | none | signed | signedEncrypted | encrypted
deriving DecidableEq, Repr

namespace Security

def all : List Security := [none, signed, signedEncrypted, encrypted]

def byte : Security → UInt8
  | none => 0
  | signed => 1
  | signedEncrypted => 2
  | encrypted => 3

def ofByte? (b : UInt8) : Option Security := all.find? (·.byte == b)

def label : Security → String
  | none => "none"
  | signed => "signed"
  | signedEncrypted => "signed_encrypted"
  | encrypted => "encrypted"

def isSigned (s : Security) : Bool := s == signed || s == signedEncrypted

def isEncrypted (s : Security) : Bool := s == encrypted || s == signedEncrypted

end Security

/-- What the body of a block carries. -/
inductive BlockType where
  | request | response | data | temporaryScope | local | hello | debugger | sourceMap | update
  | goodbye
deriving DecidableEq, Repr

namespace BlockType

def all : List BlockType :=
  [request, response, data, temporaryScope, .local, hello, debugger, sourceMap, update, goodbye]

def byte : BlockType → UInt8
  | request => 0
  | response => 1
  | data => 2
  | temporaryScope => 3
  | .local => 4
  | hello => 5
  | debugger => 6
  | sourceMap => 7
  | update => 8
  | goodbye => 9

def ofByte? (b : UInt8) : Option BlockType := all.find? (·.byte == b)

def label : BlockType → String
  | request => "request"
  | response => "response"
  | data => "data"
  | temporaryScope => "tmp_scope"
  | .local => "local"
  | hello => "hello"
  | debugger => "debugger"
  | sourceMap => "source_map"
  | update => "update"
  | goodbye => "goodbye"

end BlockType

/-- Who gets a block: everyone, or those that an encoded filter names. -/
inductive Receivers where
  | flood
  | filter (bytes : List UInt8)
deriving DecidableEq, Repr

/-- Header times count from 2022-01-21T23:00:00Z. -/
def epochMillis : Nat := 1642806000000

structure HeaderOf (Sender : Type) where
  version : UInt8 := 1
  blockSize : UInt16 := 0
  ttl : UInt8 := 64
  priority : UInt8 := 0
  security : Security := .none
  sender : Option Sender := none
  receivers : Receivers := .filter []
  scopeId : UInt32 := 0
  returnIndex : UInt16 := 0
  blockIncrement : UInt16 := 0
  blockType : BlockType := .request
  flags : UInt8 := 0
  /-- Milliseconds since the start of 1970. -/
  timestamp : Int := epochMillis
deriving DecidableEq

namespace HeaderOf

variable {Sender : Type}

def isMarkedEncrypted (h : HeaderOf Sender) : Bool := h.flags &&& 0x80 != 0
def isExecutable (h : HeaderOf Sender) : Bool := h.flags &&& 0x40 != 0
def endsScope (h : HeaderOf Sender) : Bool := h.flags &&& 0x20 != 0
def deviceType (h : HeaderOf Sender) : UInt8 := h.flags &&& 0x1f

/-- The same header from another sender. -/
def withSender {Other : Type} (h : HeaderOf Sender) (sender : Option Other) : HeaderOf Other :=
  { h with sender }

end HeaderOf

/-- A header as it is written. -/
abbrev Header := HeaderOf Endpoint

/-- A header in memory. -/
abbrev HeldHeader := HeaderOf EndpointRef

namespace Header

def magic : List UInt8 := [0x01, 0x64]

def signatureSize : Nat := 96

def vectorSize : Nat := 16

/-- The length of receivers that stands for a flood. -/
def floodMark : Nat := 0xffff

/-- The longest length of a sender's instance stands for no instance. -/
def noInstance : Nat := 255

/-! ## Writing -/

/-- The record of a sender, with a byte that says that no appspace follows. -/
def writeSender : Option Endpoint → List UInt8
  | none => [0]
  | some e =>
    let r := e.record
    [(Opcode.endpoint e.kind false).byte] ++ littleEndian 1 r.name.length ++ [0] ++
      littleEndian 1 r.inst.length ++ [0] ++ r.name ++ r.inst.bytes

def writeReceivers : Receivers → List UInt8
  | .flood => littleEndian 2 floodMark
  | .filter bytes => littleEndian 2 bytes.length ++ bytes

/-- Milliseconds between the epoch of header times and the time of a header, which is not before
it. -/
def sinceEpoch (h : Header) : Nat := (h.timestamp - epochMillis).toNat

def write (h : Header) : List UInt8 :=
  magic ++ [h.version] ++ littleEndian 2 h.blockSize.toNat ++
    [h.ttl, h.priority, h.security.byte] ++ writeSender h.sender ++ writeReceivers h.receivers ++
    (if h.security.isSigned then List.replicate signatureSize 0 else []) ++
    littleEndian 4 h.scopeId.toNat ++ littleEndian 2 h.returnIndex.toNat ++
    littleEndian 2 h.blockIncrement.toNat ++ [h.blockType.byte, h.flags] ++
    littleEndian 8 h.sinceEpoch ++
    if h.security.isEncrypted then List.replicate vectorSize 0 else []

/-! ## Reading -/

/-- Every fault in a header is the same one, at the place where reading stopped. -/
def invalid {α : Type} : Reader α := do Reader.fail (.invalidHeader (← Reader.position))

def orInvalid {α : Type} : Option α → Reader α
  | some a => pure a
  | none => invalid

/-- Reads over a subspace, which must not be empty. -/
def skipSubspace : Reader Unit := do
  let length ← Reader.number 1
  if length = 0 then invalid else let _ ← Reader.text length

/-- The parts of a sender that stand in front of its name. -/
structure SenderLengths where
  name : Nat
  subspaces : Nat
  inst : Nat

/-- Reads the name, the subspaces and the instance of a sender. -/
def readSenderName (kind : EndpointKind) (lengths : SenderLengths) : Reader Endpoint := do
  if lengths.inst = 0 then invalid
  else
    let name ← Reader.bytes lengths.name
    let _ ← Reader.repeated skipSubspace lengths.subspaces
    let inst ← if lengths.inst = noInstance then pure InstanceRef.main
      else InstanceRef.text <$> Reader.text lengths.inst
    orInvalid (Endpoint.ofBytes? kind name inst).toOption

def readSenderKind : Reader (Option EndpointKind) := do
  let byte ← Reader.uint8
  if byte = 0 then return none
  else match Opcode.ofByte? byte with
    | some (.endpoint kind _) => return some kind
    | _ => invalid

/-- Reads over an appspace, a sender record that cannot have an appspace of its own. -/
def skipAppspace : Reader Unit := do
  match ← readSenderKind with
  | none => return ()
  | some kind =>
    let name ← Reader.number 1
    let subspaces ← Reader.number 1
    let inst ← Reader.number 1
    let _ ← readSenderName kind ⟨name, subspaces, inst⟩

def readSender : Reader (Option Endpoint) := do
  match ← readSenderKind with
  | none => return none
  | some kind =>
    let name ← Reader.number 1
    let subspaces ← Reader.number 1
    let inst ← Reader.number 1
    let hasAppspace ← Reader.uint8
    let sender ← readSenderName kind ⟨name, subspaces, inst⟩
    if hasAppspace != 0 then skipAppspace
    return some sender

def readReceivers : Reader Receivers := do
  let length ← Reader.number 2
  if length = floodMark then return .flood else return .filter (← Reader.bytes length)

/-- The time that lies some milliseconds after the epoch of header times, if it has a date. -/
def timestamp? (since : Nat) : Option Int :=
  if epochMillis + since ≤ Calendar.lastMillis then some (epochMillis + since : Nat) else none

def read : Reader Header := do
  if (← Reader.bytes 2) ≠ magic then invalid
  else
    let version ← Reader.uint8
    let blockSize ← Reader.uint16
    let ttl ← Reader.uint8
    let priority ← Reader.uint8
    let security ← orInvalid (Security.ofByte? (← Reader.uint8))
    let sender ← readSender
    let receivers ← readReceivers
    if security.isSigned then Reader.padding signatureSize
    let scopeId ← Reader.uint32
    let returnIndex ← Reader.uint16
    let blockIncrement ← Reader.uint16
    let blockType ← orInvalid (BlockType.ofByte? (← Reader.uint8))
    let flags ← Reader.uint8
    let timestamp ← orInvalid (timestamp? (← Reader.uint64).toNat)
    if security.isEncrypted then Reader.padding vectorSize
    return { version, blockSize, ttl, priority, security, sender, receivers, scopeId, returnIndex
             blockIncrement, blockType, flags, timestamp }

end Header

/-! ## Handles to senders -/

namespace HeldHeader

/-- What a header in memory says. -/
def described (h : HeldHeader) : Header := h.withSender (h.sender.map Ref.endpoint)

/-- The bytes of a header in memory. -/
def encode (h : HeldHeader) : List UInt8 := h.described.write

end HeldHeader

namespace Header

/-- Takes a handle to the sender of a header. -/
def adopt (t : Interning) (h : Header) : HeldHeader × Interning :=
  match h.sender with
  | some e =>
    let (r, t) := t.build e
    (h.withSender (some r), t)
  | none => (h.withSender none, t)

/-- Splits a message into its header and its body.  The header holds its sender from then on; an
appspace, and a sender in front of a fault, are given back while the message is still read, so the
table does not tell of them. -/
def strip (t : Interning) (message : List UInt8) :
    Except DecodeError (HeldHeader × List UInt8) × Interning :=
  match read.run (.ofBytes message) with
  | (.ok header, rest) =>
    let (held, t) := adopt t header
    (.ok (held, rest.rest), t)
  | (.error _, stopped) => (.error (.invalidHeader stopped.offset), t)

/-- Splits a message where nobody owns any endpoints. -/
def strip? (message : List UInt8) : Except DecodeError (Header × List UInt8) :=
  (strip .empty message).1.map fun (h, body) => (h.described, body)

end Header

end Dxb
