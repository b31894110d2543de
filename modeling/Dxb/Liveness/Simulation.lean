import Dxb.Endpoint.Holdings
import Dxb.Liveness.Network

/-!
# A node among scripted peers

A simulation runs a node on a virtual clock.  A script says how peers answer pings and what becomes
of traces.  Tasks of one step run together: at every moment each task goes as far as it can, in the
order of the list and again until none gets any further, and only then the clock moves on to the
next moment at which something is due.

What the node knows of an endpoint lasts while somebody holds the endpoint: a slot, the node itself,
its policy, the route, or a task.  A task takes its handles when it begins and gives them back as
soon as it finishes.
-/

namespace Dxb

/-! ## Scripts -/

/-- What a peer does with a ping. -/
inductive PeerBehaviour where
  | answer (delay : Nat) (online : Bool)
  | silence
deriving DecidableEq, Repr

/-- What becomes of a trace request that is sent on. -/
inductive TraceBehaviour where
  | carry (delay : Nat)
  | fail (delay : Nat) (reason : String)
  | silence
deriving DecidableEq, Repr

structure Script where
  /-- What each peer does with its first, second, … ping; the last behaviour is repeated. -/
  peers : List (String × List PeerBehaviour)
  /-- The relays before every node that a trace goes to. -/
  route : List Endpoint
  trace : TraceBehaviour

/-- What a peer does with a ping after `earlier` others.  A peer that is not in the script fails at
once. -/
def Script.behaviour (s : Script) (peer : String) (earlier : Nat) : PeerBehaviour :=
  let known := ((s.peers.find? (·.1 == peer)).map (·.2)).getD []
  known[min earlier (known.length - 1)]?.getD (.answer 0 false)

/-! ## Steps -/

/-- How a step names its endpoint. -/
inductive Subject where
  | slot (slot : String)
  /-- A handle for the task alone. -/
  | text (text : String)

/-- What a task does. -/
inductive TaskAction where
  /-- Asks whether an endpoint is online, and gives up after some time. -/
  | isOnline (subject : Subject) (giveUpAfter : Option Nat)
  | setOnline (subject : Subject) (online : Bool)
  | pingTimeout (subject : Subject)
  | localNode
  | isInterned (text : String)
  | trace (destination : Subject)
  | receiveTrace (origin destination : String) (hops : List (String × String))

inductive SimulationStep where
  | hold (slot text : String)
  | release (slot : String)
  | advance (millis : Nat)
  | task (action : TaskAction)
  /-- Tasks that run together, each after a delay. -/
  | together (tasks : List (Nat × TaskAction))

/-- Why a trace came to nothing. -/
inductive TraceFault where
  | timeout (endpoint : String) (millis : Nat)
  | transport (reason : String)
deriving DecidableEq, Repr

def TraceFault.message : TraceFault → String
  | timeout endpoint millis => s!"trace to {endpoint} timed out after {millis} ms"
  | transport reason => s!"transport failure: {reason}"

inductive TaskAnswer where
  | done
  | online (online : Bool)
  | givenUp
  | millis (n : Nat)
  | endpoint (e : Endpoint)
  | interned (yes : Bool)
  | hops (hops : List TraceHop)
  | holdingFault (fault : HoldingFault)
  | traceFault (fault : TraceFault)
deriving DecidableEq

inductive StepAnswer where
  | held (target : Target)
  | refused (fault : HoldingFault)
  | released (filled : Bool)
  | advanced
  | answered (answer : TaskAnswer)
  /-- The answers of tasks, each with the time at which it came. -/
  | all (answers : List (Nat × TaskAnswer))

/-! ## Tasks -/

/-- How far a task has come. -/
inductive TaskStage where
  | sleeping (wake : Nat) (action : TaskAction)
  /-- A call that waits in the queue of an endpoint. -/
  | queued (e : EndpointRef) (giveUp : Option Nat)
  /-- A call whose ping ends at `due`, with a reply or without. -/
  | pinging (e : EndpointRef) (due : Nat) (reply : Option Bool) (giveUp : Option Nat)
  /-- A trace that ends at `due`, and the endpoints of its request. -/
  | tracing (held : List EndpointRef) (due : Nat) (answer : TaskAnswer)
  | finished (moment : Nat) (answer : TaskAnswer)

namespace TaskStage

/-- How many stages a task has before it at most. -/
def rank : TaskStage → Nat
  | sleeping .. => 3
  | queued .. => 2
  | pinging .. => 1
  | tracing .. => 1
  | finished .. => 0

/-- The moments at which a task goes on by itself. -/
def timers : TaskStage → List Nat
  | sleeping wake _ => [wake]
  | queued _ giveUp => giveUp.toList
  | pinging _ due _ giveUp => due :: giveUp.toList
  | tracing _ due _ => [due]
  | finished .. => []

end TaskStage

structure Simulation where
  network : Network
  script : Script
  state : NodeState
  holdings : Holdings
  /-- All pings so far, the last one first. -/
  pings : List String

namespace Simulation

/-- Takes handles to some endpoints, one after another. -/
def holdAll (table : Interning) : List Endpoint → List EndpointRef × Interning
  | [] => ([], table)
  | e :: es =>
    let (r, table) := table.build e
    let (rs, table) := holdAll table es
    (r :: rs, table)

/-- A node among peers, before the first step, in a process that holds something already.  The route
is judged before the node, and that before its policy. -/
def ofTexts? (holdings : Holdings) (node : String) (policy : LivenessPolicy) (route : List String)
    (peers : List (String × List PeerBehaviour)) (trace : TraceBehaviour) :
    Except EndpointError Simulation := do
  let route ← route.mapM Endpoint.ofText?
  let node ← Endpoint.ofText? node
  let network ← Network.ofPolicy? node policy
  let (_, table) :=
    holdAll holdings.table (route ++ node :: network.mainNode.toList ++ network.relays)
  return ⟨network, ⟨peers, route, trace⟩, .initial, { holdings with table }, []⟩

def now (s : Simulation) : Nat := s.state.now

/-- Whether somebody holds the endpoint with this canonical text. -/
def isInterned (s : Simulation) (text : String) : Bool := s.holdings.table.isInterned text

/-- The handle that a task to be about an endpoint asks for. -/
def subject (s : Simulation) : Subject → Except HoldingFault HandleRequest
  | .slot slot => do return .copy (.endpoint (← s.holdings.filled slot).subject)
  | .text text => Holdings.requestTarget (.endpoint <$> Endpoint.ofText? text)

/-- Takes the handle that was asked for. -/
def grant (s : Simulation) (r : HandleRequest) : EndpointRef × Simulation :=
  let (handle, table) := s.holdings.table.grant r
  (handle.subject, { s with holdings := { s.holdings with table } })

/-- Takes handles to some endpoints. -/
def take (s : Simulation) (es : List Endpoint) : List EndpointRef × Simulation :=
  let (held, table) := holdAll s.holdings.table es
  (held, { s with holdings := { s.holdings with table } })

/-- Gives handles back; what the node knows of an endpoint that nobody holds now is forgotten. -/
def giveBack (s : Simulation) (held : List EndpointRef) : Simulation :=
  let table := held.foldl Interning.dropEndpoint s.holdings.table
  { s with holdings := { s.holdings with table }, state := s.state.keep table.isInterned }

/-- Finishes a task, which gives back what it has held. -/
def finish (s : Simulation) (held : List EndpointRef) (answer : TaskAnswer) :
    TaskStage × Simulation :=
  (.finished s.now answer, s.giveBack held)

/-- Lets a step of the node happen; one that the node cannot take changes nothing. -/
def happen (s : Simulation) (e : Endpoint) (event : LivenessEvent) :
    LivenessOutcome × Simulation :=
  match s.network.step? s.state (.cell e event) with
  | some (state, outcome) => (outcome, { s with state })
  | none => (.nothing, s)

/-- The end of a ping that is sent now, and the reply if there is one in time. -/
def pingEnd (s : Simulation) (e : Endpoint) : Nat × Option Bool :=
  let limit := s.network.pingTimeout e
  match s.script.behaviour e.canonical (s.pings.count e.canonical) with
  | .answer delay online =>
    if delay ≤ limit then (s.now + delay, some online) else (s.now + limit, none)
  | .silence => (s.now + limit, none)

/-- What becomes of a trace request that the node sends on now: the moment, and the answer. -/
def traceEnd (s : Simulation) (next : Endpoint) (r : TraceRequest) : Nat × TaskAnswer :=
  let limit := s.network.policy.traceTimeout
  let timeout := (s.now + limit, TaskAnswer.traceFault (.timeout next.canonical limit))
  let within (delay : Nat) (answer : TaskAnswer) : Nat × TaskAnswer :=
    if delay ≤ limit then (s.now + delay, answer) else timeout
  match s.script.trace with
  | .carry delay =>
    within delay (.hops ((r.travel s.script.route 2 next).getD r.hops))
  | .fail delay reason => within delay (.traceFault (.transport reason))
  | .silence => timeout

/-- The stage of a call after a step of the node in which it took part. -/
def afterCall (s : Simulation) (e : EndpointRef) (giveUp : Option Nat) :
    LivenessOutcome → TaskStage × Simulation
  | .nothing => (.queued e giveUp, s)
  | .answer online => s.finish [e] (.online online)
  | .ping =>
    let (due, reply) := s.pingEnd e.endpoint
    (.pinging e due reply giveUp, { s with pings := e.canonical :: s.pings })

/-- The stage of a task after a trace request has come to the node. -/
def afterTrace (s : Simulation) (held : List EndpointRef) (r : TraceRequest) :
    TaskStage × Simulation :=
  match s.network.receiveTrace r with
  | .done hops => s.finish held (.hops hops)
  | .forward next r =>
    let (due, answer) := s.traceEnd next r
    (.tracing held due answer, s)

/-- The request that a task brings to the node; its origin is judged first, its hops last. -/
def readRequest (origin destination : String) (hops : List (String × String)) :
    Except EndpointError TraceRequest := do
  let origin ← Endpoint.ofText? origin
  let destination ← Endpoint.ofText? destination
  let hops ← hops.mapM fun (text, interface) => do return ⟨← Endpoint.ofText? text, interface⟩
  return ⟨origin, destination, hops⟩

/-- Begins an action. -/
def begin (s : Simulation) (call : Nat) (action : TaskAction) : TaskStage × Simulation :=
  let withSubject (subject : Subject) (f : EndpointRef → Simulation → TaskStage × Simulation) :=
    match s.subject subject with
    | .ok request =>
      let (e, s) := s.grant request
      f e s
    | .error fault => s.finish [] (.holdingFault fault)
  match action with
  | .isOnline subject giveUpAfter => withSubject subject fun e s =>
    let (outcome, s) := s.happen e.endpoint (.enter call)
    s.afterCall e (giveUpAfter.map (s.now + ·)) outcome
  | .setOnline subject online => withSubject subject fun e s =>
    (s.happen e.endpoint (.override online)).2.finish [e] .done
  | .pingTimeout subject => withSubject subject fun e s =>
    s.finish [e] (.millis (s.network.pingTimeout e.endpoint))
  | .localNode => s.finish [] (.endpoint s.network.localNode)
  | .isInterned text => s.finish [] (.interned (s.isInterned text))
  | .trace subject => withSubject subject fun e s =>
    s.afterTrace [e] (.start s.network.localNode e.endpoint)
  | .receiveTrace origin destination hops =>
    match readRequest origin destination hops with
    | .ok r =>
      let (held, s) := s.take (r.origin :: r.destination :: r.hops.map (·.endpoint))
      s.afterTrace held r
    | .error e => s.finish [] (.holdingFault (.endpoint e))

/-- Lets a task go on that something is due for, or that may have got the gate. -/
def goOn (s : Simulation) (call : Nat) (stage : TaskStage) : TaskStage × Simulation :=
  match stage with
  | .sleeping wake action => if wake ≤ s.now then s.begin call action else (stage, s)
  | .queued e giveUp =>
    let (outcome, s) := s.happen e.endpoint (.resume call)
    s.afterCall e giveUp outcome
  | .pinging e due reply _ =>
    if due ≤ s.now then
      let s := match reply with
        | some success => (s.happen e.endpoint (.reply call success)).2
        | none => s
      match s.happen e.endpoint (.resume call) with
      | (.answer online, s) => s.finish [e] (.online online)
      | (_, s) => (stage, s)
    else (stage, s)
  | .tracing held due answer => if due ≤ s.now then s.finish held answer else (stage, s)
  | .finished .. => (stage, s)

/-- Gives a call up whose time is over. -/
def giveUp (s : Simulation) (call : Nat) (stage : TaskStage) : TaskStage × Simulation :=
  match stage with
  | .queued e (some limit) | .pinging e _ _ (some limit) =>
    if limit ≤ s.now then (s.happen e.endpoint (.withdraw call)).2.finish [e] .givenUp
    else (stage, s)
  | _ => (stage, s)

/-- Lets a task go as far as it can, which is at most from stage to stage to the end; a call is
given up only if it cannot answer. -/
def poll (s : Simulation) (call : Nat) (stage : TaskStage) : TaskStage × Simulation :=
  let (stage, s) := s.goOn call stage
  let (stage, s) := s.goOn call stage
  let (stage, s) := s.goOn call stage
  s.giveUp call stage

/-- Polls the tasks in the order of the list; the first has the given number. -/
def pollAll (s : Simulation) (call : Nat) : List TaskStage → List TaskStage × Simulation
  | [] => ([], s)
  | stage :: stages =>
    let (stage, s) := s.poll call stage
    let (stages, s) := s.pollAll (call + 1) stages
    (stage :: stages, s)

def ranks (stages : List TaskStage) : Nat := stages.foldl (fun sum stage => sum + stage.rank) 0

/-- The next moment at which something is due. -/
def nextTimer (stages : List TaskStage) : Option Nat := (stages.flatMap TaskStage.timers).min?

/-- Moves the clock on to a moment. -/
def moveTo (s : Simulation) (moment : Nat) : Simulation :=
  { s with state := { s.state with now := max s.now moment } }

/-- Runs tasks until all are finished: polls them until none gets any further, and then moves the
clock. -/
def run (s : Simulation) (stages : List TaskStage) : List TaskStage × Simulation :=
  let (polled, s') := s.pollAll 0 stages
  if ranks polled < ranks stages then run s' polled
  else
    match nextTimer stages with
    | none => (stages, s')
    | some moment =>
      let (polled, s') := (s'.moveTo moment).pollAll 0 stages
      if ranks polled < ranks stages then run s' polled else (polled, s')
termination_by ranks stages

/-- Runs tasks together from now on. -/
def runTasks (s : Simulation) (tasks : List (Nat × TaskAction)) :
    List (Nat × TaskAnswer) × Simulation :=
  let (stages, s) := s.run (tasks.map fun (delay, action) => .sleeping (s.now + delay) action)
  let answers := stages.filterMap fun
    | .finished moment answer => some (moment, answer)
    | _ => none
  (answers, s)

def step (s : Simulation) : SimulationStep → StepAnswer × Simulation
  | .hold slot text =>
    let (made, holdings) := s.holdings.make (some slot) (.parse text)
    let s := { s with holdings }.giveBack []
    match made with
    | .ok target => (.held target, s)
    | .error fault => (.refused fault, s)
  | .release slot =>
    let (filled, holdings) := s.holdings.drop slot
    (.released filled, { s with holdings }.giveBack [])
  | .advance millis => (.advanced, s.moveTo (s.now + millis))
  | .task action =>
    match s.runTasks [(0, action)] with
    | ((_, answer) :: _, s) => (.answered answer, s)
    | ([], s) => (.answered .done, s)
  | .together tasks =>
    let (answers, s) := s.runTasks tasks
    (.all answers, s)

/-- The pings of a step, in order, where `before` is the simulation before the step. -/
def pingsSince (s before : Simulation) : List String :=
  (s.pings.take (s.pings.length - before.pings.length)).reverse

end Simulation

end Dxb
