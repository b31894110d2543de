/-!
# Structural faults of a DXB stream

`DecodeError` names what can be wrong with the bytes themselves, each with the offset at which it
was noticed.  Faults of a value that was read completely (an unknown unit, a malformed name) have
their own types beside those values.
-/

namespace Dxb

/-- Why reading a stream had to stop. -/
inductive DecodeError where
  | unexpectedEof (offset needed : Nat)
  | noParentScope (offset : Nat)
  | invalidHeader (offset : Nat)
  | invalidUtf8 (offset : Nat)
  | nestedOutOfBounds (offset length : Nat)
  | tooDeep (offset limit : Nat)
deriving DecidableEq, Repr

namespace DecodeError

/-- The offset at which the fault was noticed. -/
def offset : DecodeError → Nat
  | unexpectedEof o _ | noParentScope o | invalidHeader o | invalidUtf8 o
  | nestedOutOfBounds o _ | tooDeep o _ => o

def message : DecodeError → String
  | unexpectedEof o needed =>
    s!"unexpected end of input at byte {o}: needed {needed} more byte(s)"
  | noParentScope _ => "No parent scope to go to"
  | invalidHeader _ => "Invalid DATEX Header"
  | invalidUtf8 o => s!"invalid UTF-8 text at byte {o}"
  | nestedOutOfBounds o length =>
    s!"nested program of {length} bytes at byte {o} exceeds the input"
  | tooDeep o limit => s!"scopes nested deeper than {limit} levels at byte {o}"

end DecodeError

end Dxb
