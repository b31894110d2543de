import Dxb.Endpoint.Name
import Dxb.Opcode

/-!
# Endpoints

An endpoint is a name with an instance; the instance zero is the main endpoint of the name.  Its
canonical text is the sigil, the name, and four hex digits for an instance other than zero.
-/

namespace Dxb

/-- How an instance can be given. -/
inductive InstanceRef where
  | main
  /-- Any instance, which stands for the main endpoint. -/
  | any
  /-- At most four hex digits; nothing or a star is the main endpoint. -/
  | text (s : String)
  /-- At most two bytes, highest first. -/
  | bytes (bs : List UInt8)
  | number (n : UInt16)
deriving DecidableEq, Repr

/-- The size of an instance in bytes. -/
def instanceSize : Nat := 2

def InstanceRef.resolve? : InstanceRef → Except EndpointError UInt16
  | main | any => .ok 0
  | number n => .ok n
  | bytes bs =>
    if instanceSize < bs.length then .error (.instanceTooLong bs.length instanceSize)
    else .ok (UInt16.ofNat (bs.foldl (fun high b => 256 * high + b.toNat) 0))
  | text s =>
    let digits := s.toList
    if s = "" ∨ s = "*" then .ok 0
    else if digits.all (fun c => (Hex.value? c).isSome) then
      if 2 * instanceSize < digits.length then
        .error (.instanceTooLong ((digits.length + 1) / 2) instanceSize)
      else .ok (UInt16.ofNat
        (digits.foldl (fun high c => 16 * high + (Hex.value? c).getD 0) 0))
    else .error (.malformedInstance s)

structure Endpoint where
  name : EndpointName
  inst : UInt16
deriving DecidableEq

namespace Endpoint

def kind (e : Endpoint) : EndpointKind := e.name.kind

/-- The text without the instance. -/
def mainText (e : Endpoint) : String := e.kind.sigil ++ e.name.text

/-- The two bytes of the instance, highest first. -/
def instanceBytes (e : Endpoint) : List UInt8 := [UInt8.ofNat (e.inst.toNat / 256), e.inst.toUInt8]

/-- The instance as four hex digits. -/
def instanceText (e : Endpoint) : String := Hex.lower e.instanceBytes

def canonical (e : Endpoint) : String :=
  if e.inst = 0 then e.mainText else e.mainText ++ "/" ++ e.instanceText

def isMain (e : Endpoint) : Bool := e.inst == 0

/-- The same name without an instance. -/
def main (e : Endpoint) : Endpoint := { e with inst := 0 }

/-- The same name with another instance. -/
def withInstance? (e : Endpoint) (i : InstanceRef) : Except EndpointError Endpoint := do
  return { e with inst := ← i.resolve? }

/-- `@@local`, the all-zero id. -/
def localNode : Endpoint := ⟨.id NameSlot.localId, 0⟩

/-- `@@any`, which every filter accepts. -/
def broadcast : Endpoint := ⟨.id NameSlot.anyId, 0⟩

/-- An endpoint from a name without its sigil.  The name is judged before the instance. -/
def ofName? (kind : EndpointKind) (name : String) (i : InstanceRef) :
    Except EndpointError Endpoint := do
  let name ← EndpointName.ofText? kind name
  return ⟨name, ← i.resolve?⟩

/-- An endpoint from the bytes of its name slot. -/
def ofBytes? (kind : EndpointKind) (name : List UInt8) (i : InstanceRef) :
    Except EndpointError Endpoint := do
  let name ← EndpointName.ofBytes? kind name
  return ⟨name, ← i.resolve?⟩

/-- The text before the first slash, and the one after it if there is one. -/
def splitInstance (text : String) : String × Option String :=
  match text.toList.span (· != '/') with
  | (name, _ :: inst) => (String.ofList name, some (String.ofList inst))
  | (name, []) => (String.ofList name, none)

/-- The endpoint that a text names: a sigil, a name, and after a slash the instance. -/
def ofText? (text : String) : Except EndpointError Endpoint :=
  match EndpointKind.split? text with
  | none => .error (.unknownSigil text)
  | some (kind, rest) =>
    match splitInstance rest with
    | (name, some inst) => ofName? kind name (.text inst)
    | (name, none) => ofName? kind name .main

end Endpoint

end Dxb
