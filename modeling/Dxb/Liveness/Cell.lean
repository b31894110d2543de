import Dxb.Liveness.Policy

/-!
# What a node knows of one endpoint

A call that asks whether an endpoint is online answers from the cache while the cached result
stands.  Otherwise it joins the queue of the endpoint.  The first call of the queue has the gate: it
looks at the cache again and sends a ping if it must, and the others wait, so that they share the
result.  An override stores a result at once and makes sure that no ping sent before it is stored
after it: every override starts a new generation, and a ping is stored in its own generation only.

A step is what happens between two moments at which a call can be interrupted: a call is interrupted
when it has joined the queue, even if nobody is before it, and when its ping is out.  A reply comes
at a moment of its own, and the call notices it later.  It looks for a reply before it looks at the
deadline; so where the clock has passed the deadline unnoticed, a reply that came after it still
counts.  `step?` is defined exactly on the steps that can happen.
-/

namespace Dxb

/-- A result that stands until it expires. -/
structure CachedResult where
  online : Bool
  expires : Nat
deriving DecidableEq, Repr

/-- How far a call has come that has not answered yet. -/
inductive CallStage where
  /-- In the queue, maybe at its head without having noticed. -/
  | waiting
  /-- Its ping is out, sent in a generation; from the deadline on the call need not wait. -/
  | pinging (generation deadline : Nat)
  /-- Its ping, sent in a generation, was answered or failed, which it has not noticed yet. -/
  | replied (generation : Nat) (success : Bool)
deriving DecidableEq, Repr

structure PendingCall where
  id : Nat
  stage : CallStage
deriving DecidableEq, Repr

structure LivenessCell where
  cached : Option CachedResult
  generation : Nat
  /-- The calls that have not answered, in the order in which they came.  The first has the gate. -/
  calls : List PendingCall
deriving DecidableEq, Repr

/-- What can happen to the calls for an endpoint. -/
inductive LivenessEvent where
  /-- A call begins. -/
  | enter (call : Nat)
  /-- A call notices that it has the gate, that its ping has ended, or that it waited too long. -/
  | resume (call : Nat)
  /-- The ping of a call is answered, or fails, while the call waits for it. -/
  | reply (call : Nat) (success : Bool)
  /-- A call is given up. -/
  | withdraw (call : Nat)
  /-- Something else tells whether the endpoint is online. -/
  | override (online : Bool)
deriving DecidableEq, Repr

/-- What a step lets the outside know. -/
inductive LivenessOutcome where
  | nothing
  /-- The call has answered. -/
  | answer (online : Bool)
  /-- The call has sent a ping. -/
  | ping
deriving DecidableEq, Repr

namespace LivenessCell

def empty : LivenessCell := ⟨none, 0, []⟩

/-- The cached result, if it still stands. -/
def current? (c : LivenessCell) (now : Nat) : Option Bool :=
  (c.cached.filter fun result => now < result.expires).map (·.online)

/-- A call answers from the cache or joins the queue. -/
def enter (c : LivenessCell) (now call : Nat) : LivenessCell × LivenessOutcome :=
  match c.current? now with
  | some online => (c, .answer online)
  | none => ({ c with calls := c.calls ++ [⟨call, .waiting⟩] }, .nothing)

/-- The call at the gate answers from the cache or sends a ping. -/
def proceed (c : LivenessCell) (now limit call : Nat) (others : List PendingCall) :
    LivenessCell × LivenessOutcome :=
  match c.current? now with
  | some online => ({ c with calls := others }, .answer online)
  | none => ({ c with calls := ⟨call, .pinging c.generation (now + limit)⟩ :: others }, .ping)

/-- The ping of the call at the gate has ended.  Its result is stored unless there was an override
since it was sent; then what the override said is the answer while it stands. -/
def conclude (c : LivenessCell) (p : LivenessPolicy) (now generation : Nat) (online : Bool)
    (others : List PendingCall) : LivenessCell × LivenessOutcome :=
  if c.generation = generation then
    ({ c with cached := some ⟨online, now + p.ttl online⟩, calls := others }, .answer online)
  else ({ c with calls := others }, .answer ((c.current? now).getD online))

/-- The call at the gate goes on from its stage.  While its ping is out, it waits for the reply or
for the deadline. -/
def resume? (c : LivenessCell) (p : LivenessPolicy) (now limit call : Nat)
    (others : List PendingCall) : CallStage → Option (LivenessCell × LivenessOutcome)
  | .waiting => some (c.proceed now limit call others)
  | .replied generation success => some (c.conclude p now generation success others)
  | .pinging generation deadline =>
    if deadline ≤ now then some (c.conclude p now generation false others) else none

/-- A step at time `now`, where a ping sent now is waited for at least `limit` from now on. -/
def step? (c : LivenessCell) (p : LivenessPolicy) (now limit : Nat) :
    LivenessEvent → Option (LivenessCell × LivenessOutcome)
  | .enter call =>
    if c.calls.any (·.id == call) then none else some (c.enter now call)
  | .resume call =>
    match c.calls with
    | ⟨first, stage⟩ :: others =>
      if first = call then c.resume? p now limit call others stage else none
    | [] => none
  | .reply call success =>
    match c.calls with
    | ⟨first, .pinging generation _⟩ :: others =>
      if first = call then
        some ({ c with calls := ⟨call, .replied generation success⟩ :: others }, .nothing)
      else none
    | _ => none
  | .withdraw call =>
    if c.calls.any (·.id == call) then
      some ({ c with calls := c.calls.filter (·.id != call) }, .nothing)
    else none
  | .override online =>
    some ({ c with cached := some ⟨online, now + p.ttl online⟩, generation := c.generation + 1 },
      .nothing)

end LivenessCell

end Dxb
