import Dxb.Liveness.Cell
import Dxb.Liveness.Trace

/-!
# A node and what it knows of others

A network is a node with its policy.  Its state is a clock and a cell for every endpoint, found by
the canonical text.  The node itself and its main node always count as online, and nobody pings
them.
-/

namespace Dxb

structure Network where
  localNode : Endpoint
  mainNode : Option Endpoint
  relays : List Endpoint
  policy : LivenessPolicy

/-- What a node knows, at a moment. -/
structure NodeState where
  now : Nat
  cells : List (String × LivenessCell)
deriving DecidableEq

/-- What can happen to a node. -/
inductive NodeEvent where
  /-- A step of the calls for an endpoint. -/
  | cell (e : Endpoint) (event : LivenessEvent)
  | elapse (millis : Nat)

namespace NodeState

def initial : NodeState := ⟨0, []⟩

/-- The cell of an endpoint; at first it is empty. -/
def cell (s : NodeState) (key : String) : LivenessCell :=
  ((s.cells.find? (·.1 == key)).map (·.2)).getD .empty

def setCell (s : NodeState) (key : String) (c : LivenessCell) : NodeState :=
  { s with cells := (key, c) :: s.cells.filter (·.1 != key) }

/-- Forgets the cells of all endpoints but some. -/
def keep (s : NodeState) (wanted : String → Bool) : NodeState :=
  { s with cells := s.cells.filter fun entry => wanted entry.1 }

end NodeState

namespace Network

open Target (sameEndpoint)

/-- The network of a node under a policy, whose main node is resolved before its relays. -/
def ofPolicy? (localNode : Endpoint) (policy : LivenessPolicy) : Except EndpointError Network := do
  let mainNode ← policy.mainNode.mapM Endpoint.ofText?
  let relays ← policy.relays.mapM Endpoint.ofText?
  return { localNode, mainNode, relays, policy }

def alwaysOnline (n : Network) (e : Endpoint) : Bool :=
  sameEndpoint e n.localNode || n.mainNode.any (sameEndpoint e)

/-- How long a ping may take; every instance of a relay counts as one. -/
def pingTimeout (n : Network) (e : Endpoint) : Nat :=
  if n.relays.any (sameEndpoint e.main) then n.policy.relayPingTimeout else n.policy.pingTimeout

/-- A step of the node, defined exactly on the steps that can happen. -/
def step? (n : Network) (s : NodeState) : NodeEvent → Option (NodeState × LivenessOutcome)
  | .elapse millis => some ({ s with now := s.now + millis }, .nothing)
  | .cell e event =>
    match n.alwaysOnline e, event with
    | true, .enter _ => some (s, .answer true)
    | _, event => do
      let (c, outcome) ← (s.cell e.canonical).step? n.policy s.now (n.pingTimeout e) event
      return (s.setCell e.canonical c, outcome)

/-- Handles a trace request that arrives at the node. -/
def receiveTrace (n : Network) (r : TraceRequest) : TraceStep :=
  r.step n.localNode n.policy.interface

end Network

/-! ## Lemmas -/

theorem NodeState.cell_setCell (s : NodeState) (key : String) (c : LivenessCell) :
    (s.setCell key c).cell key = c := by
  simp [cell, setCell]

theorem NodeState.cell_setCell_ne (s : NodeState) {key other : String} (c : LivenessCell)
    (h : key ≠ other) : (s.setCell key c).cell other = s.cell other := by
  have h' : (key == other) = false := by simpa using h
  simp only [cell, setCell, List.find?_cons, h']
  rw [List.find?_filter]
  congr 2
  refine congrArg (fun f => List.find? f s.cells) (funext fun entry => ?_)
  by_cases hk : entry.1 = other
  · simp [hk, Ne.symm h]
  · simp [hk]

end Dxb
