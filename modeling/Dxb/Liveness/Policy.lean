/-!
# Liveness policy

How long a node believes what it knows of others, and how long it waits for them.  All times are in
milliseconds.
-/

namespace Dxb

structure LivenessPolicy where
  /-- How long an endpoint that was found online counts as online. -/
  onlineTtl : Nat := 15000
  /-- How long an endpoint that was found offline counts as offline. -/
  offlineTtl : Nat := 3000
  pingTimeout : Nat := 2000
  relayPingTimeout : Nat := 5000
  /-- The endpoints that get the timeout for relays. -/
  relays : List String := ["@+unyt1", "@+unyt2", "@+unyt3"]
  traceTimeout : Nat := 60000
  /-- An endpoint that always counts as online. -/
  mainNode : Option String := none
  /-- The interface that this node writes into the hops of a trace. -/
  interface : String := "local"
deriving DecidableEq, Repr

/-- How long a result stands. -/
def LivenessPolicy.ttl (p : LivenessPolicy) (online : Bool) : Nat :=
  if online then p.onlineTtl else p.offlineTtl

end Dxb
