import Dxb.Endpoint.Basic

/-!
# Targets of a filter

A target is an endpoint, or a wildcard over every instance of one.  `Target.satisfies` decides
whether a target passes a filter that names another.
-/

namespace Dxb

inductive Target where
  | endpoint (e : Endpoint)
  | wildcard (e : Endpoint)
deriving DecidableEq

namespace Target

/-- The endpoint that a target is about. -/
def subject : Target → Endpoint
  | endpoint e | wildcard e => e

def isWildcard : Target → Bool
  | endpoint _ => false
  | wildcard _ => true

def ofEndpoint (wild : Bool) (e : Endpoint) : Target :=
  if wild then wildcard e else endpoint e

def text (t : Target) : String := t.subject.canonical

/-- The endpoint with the same canonical text. -/
def sameEndpoint (a b : Endpoint) : Bool := a.canonical == b.canonical

/-- Targets are equal when they have the same form and are about the same endpoint. -/
def same : Target → Target → Bool
  | endpoint a, endpoint b | wildcard a, wildcard b => sameEndpoint a b
  | _, _ => false

/-- Whether `value` passes a filter that names `filter`.  A filter without an instance takes every
instance of its name; `@@any` takes everything. -/
def satisfies (value filter : Target) : Bool :=
  match value, filter with
  | _, endpoint f => sameEndpoint f Endpoint.broadcast || match value with
    | endpoint v => sameEndpoint v f || sameEndpoint v.main f
    | wildcard _ => false
  | endpoint v, wildcard f => sameEndpoint v.main f.main
  | wildcard v, wildcard f => sameEndpoint v f

/-- The target that a name stands for.  The name may have a sigil of its own, otherwise the hint
gives the kind; an explicit instance wins over one in the name; a hint for wildcards makes one. -/
def ofText? (name : String) (inst : Option InstanceRef) (hint : Option Opcode) :
    Except EndpointError Target :=
  let hinted : Option (EndpointKind × Bool) := match hint with
    | some (.endpoint kind wild) => some (kind, wild)
    | _ => none
  match EndpointKind.split? name <|> hinted.map (fun h => (h.1, name)) with
  | none => .error (.unknownSigil name)
  | some (kind, rest) =>
    let (bare, written) := Endpoint.splitInstance rest
    let inst := (inst <|> written.map InstanceRef.text).getD .main
    ofEndpoint (hinted.any (·.2)) <$> Endpoint.ofName? kind bare inst

end Target

end Dxb
