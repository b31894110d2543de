import Dxb.Bytes.Hex
import Dxb.Endpoint.Kind
import Dxb.Text.Utf8

/-!
# Endpoint names

A name fills a slot of eighteen bytes.  Ids use the slot as it is, the other kinds hold a text in
it, padded with NUL.  `EndpointName` can only hold what the rules for names let through.
-/

namespace Dxb

/-- Why something is no endpoint. -/
inductive EndpointError where
  | emptyName
  | nonUtf8Name
  | reservedCharacter (name : String)
  | dotInName (name : String)
  | nameTooLong (length limit : Nat)
  | instanceTooLong (length limit : Nat)
  | malformedInstance (text : String)
  | malformedId (text : String)
  | unknownSigil (text : String)
deriving DecidableEq, Repr

namespace EndpointError

def quoted (s : String) : String := "`" ++ s ++ "`"

def message : EndpointError → String
  | emptyName => "endpoint name cannot be empty"
  | nonUtf8Name => "endpoint name is not valid UTF-8"
  | reservedCharacter name =>
    "endpoint name " ++ quoted name ++ " contains a reserved character"
  | dotInName name => "endpoint name " ++ quoted name ++ " must not contain " ++ quoted "."
  | nameTooLong length limit => s!"endpoint name is {length} bytes, maximum is {limit}"
  | instanceTooLong length limit => s!"endpoint instance is {length} bytes, maximum is {limit}"
  | malformedInstance text => "malformed endpoint instance " ++ quoted text
  | malformedId text => "malformed id endpoint " ++ quoted text
  | unknownSigil text => "unknown endpoint prefix in " ++ quoted text

end EndpointError

/-- The size of the name slot. -/
def nameSlotSize : Nat := 18

/-- The bytes of a name slot. -/
structure NameSlot where
  bytes : List UInt8
  length_eq : bytes.length = nameSlotSize
deriving DecidableEq, Repr

namespace NameSlot

/-- Bytes with NUL behind them up to the size of the slot. -/
def pad (bytes : List UInt8) (h : bytes.length ≤ nameSlotSize) : NameSlot where
  bytes := bytes ++ List.replicate (nameSlotSize - bytes.length) 0
  length_eq := by
    rw [List.length_append, List.length_replicate]
    omega

/-- The same byte in every place. -/
def filled (b : UInt8) : NameSlot := ⟨List.replicate nameSlotSize b, by simp⟩

/-- Bytes without the NULs at their end. -/
def trim (bytes : List UInt8) : List UInt8 := (bytes.reverse.dropWhile (· == 0)).reverse

/-- The id that stands for the endpoint itself. -/
def localId : NameSlot := filled 0x00

/-- The id that stands for every endpoint. -/
def anyId : NameSlot := filled 0xff

/-- An id without its sigil: two names, and otherwise hex digits up to the last byte that is not
zero. -/
def idText (s : NameSlot) : String :=
  if s = localId then "local" else if s = anyId then "any" else Hex.upper (trim s.bytes)

end NameSlot

/-- What a text must be to name a person, an institution or a bot. -/
structure TextName where
  text : String
  nonempty : text ≠ ""
  clean : ∀ c ∈ text.toList, c ≠ '.' ∧ c ≠ '/' ∧ c ≠ '\x00'
  short : (utf8 text).length ≤ nameSlotSize
deriving DecidableEq

namespace TextName

/-- The name that a text is, or the first rule it breaks. -/
def ofText? (text : String) : Except EndpointError TextName :=
  if nonempty : text = "" then .error .emptyName
  else if dots : '.' ∈ text.toList then .error (.dotInName text)
  else if reserved : '/' ∈ text.toList ∨ '\x00' ∈ text.toList then
    .error (.reservedCharacter text)
  else if long : nameSlotSize < (utf8 text).length then
    .error (.nameTooLong (utf8 text).length nameSlotSize)
  else .ok
    { text, nonempty
      clean := fun c hc => ⟨fun h => dots (h ▸ hc), fun h => reserved (.inl (h ▸ hc)),
        fun h => reserved (.inr (h ▸ hc))⟩
      short := by omega }

def slot (n : TextName) : NameSlot := NameSlot.pad (utf8 n.text) n.short

end TextName

/-- The name of an endpoint of each kind. -/
inductive EndpointName where
  | person (name : TextName)
  | institution (name : TextName)
  | id (slot : NameSlot)
  | bot (name : TextName)
deriving DecidableEq

namespace EndpointName

def kind : EndpointName → EndpointKind
  | person _ => .person
  | institution _ => .institution
  | id _ => .id
  | bot _ => .bot

def slot : EndpointName → NameSlot
  | person n | institution n | bot n => n.slot
  | id s => s

/-- The name without its sigil. -/
def text : EndpointName → String
  | person n | institution n | bot n => n.text
  | id s => s.idText

/-- The id that a text spells: `local`, `any`, or bytes in hex. -/
def idOfText? (text : String) : Except EndpointError NameSlot :=
  if text = "local" then .ok NameSlot.localId
  else if text = "any" then .ok NameSlot.anyId
  else if '.' ∈ text.toList then .error (.dotInName text)
  else match Hex.decode? text with
    | none | some [] => .error (.malformedId text)
    | some bytes =>
      if h : bytes.length ≤ nameSlotSize then .ok (NameSlot.pad bytes h)
      else .error (.nameTooLong bytes.length nameSlotSize)

/-- The name of a kind that a text spells, without its sigil. -/
def ofText? (kind : EndpointKind) (text : String) : Except EndpointError EndpointName :=
  match kind with
  | .person => person <$> TextName.ofText? text
  | .institution => institution <$> TextName.ofText? text
  | .id => id <$> idOfText? text
  | .bot => bot <$> TextName.ofText? text

/-- The name of a kind in the given bytes of a slot. -/
def ofBytes? (kind : EndpointKind) (bytes : List UInt8) : Except EndpointError EndpointName :=
  if h : bytes.length ≤ nameSlotSize then
    match kind with
    | .id => .ok (id (NameSlot.pad bytes h))
    | kind => match ofUtf8? (NameSlot.trim bytes) with
      | some text => ofText? kind text
      | none => .error .nonUtf8Name
  else .error (.nameTooLong bytes.length nameSlotSize)

end EndpointName

end Dxb
