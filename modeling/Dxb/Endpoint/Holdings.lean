import Dxb.Endpoint.Interning

/-!
# Holding endpoints

Named slots hold handles to targets.  `Holdings.step` makes handles, overwrites slots and drops
them, and keeps the interning table that all of them share.

Two endpoints are permanent: `@@local` and `@@any`.  A handle to one is made when it is used for the
first time, and is never given back.
-/

namespace Dxb

/-- How a handle is made. -/
inductive Making where
  | parse (text : String)
  | ofName (kind : EndpointKind) (name : String) (inst : InstanceRef)
  | ofBytes (kind : EndpointKind) (name : List UInt8) (inst : InstanceRef)
  | parseTarget (text : String) (hint : Option Opcode) (inst : Option InstanceRef := none)
  | decode (opcode : Opcode) (bytes : List UInt8)
  /-- The main endpoint of what a slot is about. -/
  | main (source : String)
  | withInstance (source : String) (inst : InstanceRef)
  | copy (source : String)
  | wildcard (source : String)
  /-- The endpoint that a slot is about. -/
  | subject (source : String)

/-- Why a handle is not made. -/
inductive HoldingFault where
  | emptySlot
  | endpoint (e : EndpointError)
  | decode (e : DecodeError)
deriving DecidableEq, Repr

inductive Permanent where
  | localNode
  | everyone
deriving DecidableEq, Repr

def Permanent.endpoint : Permanent → Endpoint
  | localNode => Endpoint.localNode
  | everyone => Endpoint.broadcast

structure Holdings where
  table : Interning
  /-- The permanent endpoints that were used so far. -/
  used : List (Permanent × EndpointRef)
  slots : List (String × Handle)
deriving DecidableEq

/-- What happens to the slots. -/
inductive HoldingStep where
  /-- Makes a handle and stores it, or drops it again if no slot is named. -/
  | make (slot : Option String) (m : Making)
  /-- Uses a permanent endpoint, and stores a handle to it if a slot is named. -/
  | use (slot : Option String) (p : Permanent)
  /-- Asks whether what is in a slot passes the filter that another one names. -/
  | compare (value filter : String)
  | drop (slot : String)

namespace Holdings

def empty : Holdings := ⟨.empty, [], []⟩

def get? (h : Holdings) (slot : String) : Option Handle :=
  (h.slots.find? (·.1 == slot)).map (·.2)

def handles (h : Holdings) : List Handle := h.slots.map (·.2)

def targets (h : Holdings) : List Target := h.handles.map (·.target)

/-- The handle in a slot, which must be filled. -/
def filled (h : Holdings) (slot : String) : Except HoldingFault Handle :=
  match h.get? slot with
  | some t => .ok t
  | none => .error .emptySlot

/-- The target at the start of some bytes. -/
def decodeTarget (opcode : Opcode) (bytes : List UInt8) : Except HoldingFault Target :=
  match EndpointRecord.read.run (.ofBytes bytes) with
  | (.error e, _) => .error (.decode e)
  | (.ok record, _) => (record.target? opcode).mapError .endpoint

/-- A request for the target that was judged, if it was found right. -/
def requestTarget (t : Except EndpointError Target) : Except HoldingFault HandleRequest :=
  (t.mapError .endpoint).map .target

/-- What a handle is made of.  Everything is judged here, before the table is touched. -/
def request (h : Holdings) : Making → Except HoldingFault HandleRequest
  | .parse text => requestTarget (.endpoint <$> Endpoint.ofText? text)
  | .ofName kind name inst => requestTarget (.endpoint <$> Endpoint.ofName? kind name inst)
  | .ofBytes kind name inst => requestTarget (.endpoint <$> Endpoint.ofBytes? kind name inst)
  | .parseTarget text hint inst => requestTarget (Target.ofText? text inst hint)
  | .decode opcode bytes => (decodeTarget opcode bytes).map .target
  | .main source => do return .copy (.endpoint (← h.filled source).subject.main)
  | .withInstance source inst => do
    requestTarget (.endpoint <$> (← h.filled source).subject.endpoint.withInstance? inst)
  | .copy source => do return .copy (← h.filled source)
  | .wildcard source => do return .cover (← h.filled source).subject
  | .subject source => do return .copy (.endpoint (← h.filled source).subject)

/-- Empties a slot and gives its handle back; says whether there was one. -/
def drop (h : Holdings) (slot : String) : Bool × Holdings :=
  match h.get? slot with
  | some t => (true, { h with table := h.table.drop t, slots := h.slots.filter (·.1 != slot) })
  | none => (false, h)

/-- Stores a handle; what the slot held before is given back afterwards. -/
def store (h : Holdings) (slot : String) (t : Handle) : Holdings :=
  let emptied := (h.drop slot).2
  { emptied with slots := emptied.slots ++ [(slot, t)] }

/-- Makes a handle.  On an error nothing changes. -/
def make (h : Holdings) (slot : Option String) (m : Making) :
    Except HoldingFault Handle × Holdings :=
  match h.request m with
  | .error e => (.error e, h)
  | .ok request =>
    let (made, table) := h.table.grant request
    match slot with
    | some slot => (.ok made, store { h with table } slot made)
    | none => (.ok made, { h with table := table.drop made })

/-- The handle to a permanent endpoint, which is made on the first use. -/
def force (h : Holdings) (p : Permanent) : EndpointRef × Holdings :=
  match h.used.lookup p with
  | some r => (r, h)
  | none =>
    let (r, table) := h.table.build p.endpoint
    (r, { h with table, used := (p, r) :: h.used })

/-- Uses a permanent endpoint. -/
def use (h : Holdings) (slot : Option String) (p : Permanent) : Holdings :=
  let (r, h) := h.force p
  match slot with
  | some slot => store { h with table := h.table.share (.endpoint r) } slot (.endpoint r)
  | none => h

/-- Whether a handle passes the filter that another one names.  A filter without wildcard is
compared with `@@any` first. -/
def satisfies (h : Holdings) (value filter : Handle) : Bool × Holdings :=
  match filter with
  | .endpoint f =>
    let (everyone, h) := h.force .everyone
    (f.same everyone || value.meets filter, h)
  | .wildcard _ => (value.meets filter, h)

/-- Asks whether what is in a slot passes a filter; nothing happens while a slot is empty. -/
def compare (h : Holdings) (value filter : String) : Except HoldingFault Bool × Holdings :=
  match h.filled value, h.filled filter with
  | .ok v, .ok f =>
    let (passes, h) := h.satisfies v f
    (.ok passes, h)
  | .error e, _ => (.error e, h)
  | _, .error e => (.error e, h)

/-- The slots and the table after a step. -/
def step (h : Holdings) : HoldingStep → Holdings
  | .make slot m => (h.make slot m).2
  | .use slot p => h.use slot p
  | .compare value filter => (h.compare value filter).2
  | .drop slot => (h.drop slot).2

/-- The slots and the table after some steps. -/
def run (h : Holdings) (steps : List HoldingStep) : Holdings := steps.foldl step h

/-- Both permanent endpoints were used, and nothing else. -/
def bothUsed : Holdings := empty.run [.use none .localNode, .use none .everyone]

/-- How many different values a list has, by a test for being the same. -/
def countDistinct {α : Type} (same : α → α → Bool) (xs : List α) : Nat :=
  (xs.foldl (fun seen x => if seen.any (same x) then seen else x :: seen) []).length

end Holdings

end Dxb
