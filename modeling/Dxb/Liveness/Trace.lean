import Dxb.Endpoint.Target

/-!
# Tracing a route

A trace request travels from its origin to its destination and back.  Every node it comes through
adds itself to the hops and decides from them where the request goes next: to the destination until
that is among the hops, then to the origin, where it is done.
-/

namespace Dxb

/-- A node that a trace request came through, and the interface on which it did. -/
structure TraceHop where
  endpoint : Endpoint
  interface : String
deriving DecidableEq

structure TraceRequest where
  origin : Endpoint
  destination : Endpoint
  /-- The hops so far, the origin first. -/
  hops : List TraceHop
deriving DecidableEq

/-- What becomes of a request at a node. -/
inductive TraceStep where
  /-- It is back at its origin. -/
  | done (hops : List TraceHop)
  | forward (next : Endpoint) (request : TraceRequest)
deriving DecidableEq

namespace TraceRequest

open Target (sameEndpoint)

def start (origin destination : Endpoint) : TraceRequest := ⟨origin, destination, []⟩

/-- The request with one hop more. -/
def record (r : TraceRequest) (here : Endpoint) (interface : String) : TraceRequest :=
  { r with hops := r.hops ++ [⟨here, interface⟩] }

/-- Whether the request has come through its destination. -/
def reached (r : TraceRequest) : Bool :=
  r.hops.any fun hop => sameEndpoint hop.endpoint r.destination

/-- Whether the request ends at a node: it is the origin, and the request comes back to it or is for
the origin itself. -/
def endsAt (r : TraceRequest) (here : Endpoint) : Bool :=
  sameEndpoint r.origin here && (!r.hops.isEmpty || sameEndpoint r.destination here)

/-- Handles a request at a node. -/
def step (r : TraceRequest) (here : Endpoint) (interface : String) : TraceStep :=
  let recorded := r.record here interface
  if r.endsAt here then .done recorded.hops
  else .forward (if recorded.reached then r.origin else r.destination) recorded

/-- Hands a request to the stops of a route in turn, until one of them ends it.  A stop is what it
records: a node, and the interface on which the request comes to it. -/
def along (r : TraceRequest) : List TraceHop → Except (List TraceHop) TraceRequest
  | [] => .ok r
  | stop :: route =>
    match r.step stop.endpoint stop.interface with
    | .done hops => .error hops
    | .forward _ r => r.along route

/-- Passes a request through relays, whatever they name as the next node. -/
def through (r : TraceRequest) (interface : String) (relays : List Endpoint) :
    Except (List TraceHop) TraceRequest :=
  r.along (relays.map fun relay => ⟨relay, interface⟩)

/-- Carries a request to the next node, through the relays before it, and from there on for at most
the given number of legs.  Two are enough from any node (`travel_two`).  Relays take it on the
interface `relay`, the nodes it goes to on the interface `remote`. -/
def travel (relays : List Endpoint) :
    (legs : Nat) → Endpoint → TraceRequest → Option (List TraceHop)
  | 0, _, _ => none
  | legs + 1, next, r =>
    match r.through "relay" relays with
    | .error hops => some hops
    | .ok r =>
      match r.step next "remote" with
      | .done hops => some hops
      | .forward next r => travel relays legs next r

end TraceRequest

end Dxb
