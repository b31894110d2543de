import Dxb.Endpoint.Record
import Dxb.Endpoint.Registry

/-!
# Interning of endpoints

While somebody owns an endpoint, everyone who asks for its canonical text gets a handle to the same
one.  An endpoint with an instance owns its main endpoint, and a wildcard owns the endpoint it is
about; whatever has lost its last owner gives back what it owns.
-/

namespace Dxb

/-- An endpoint in memory; with an instance it owns its main endpoint. -/
structure Interned where
  endpoint : Endpoint
  main : Option (Ref Endpoint)
deriving DecidableEq

/-- A handle to an endpoint. -/
abbrev EndpointRef := Ref Interned

namespace Ref

def endpoint (r : EndpointRef) : Endpoint := r.value.endpoint

def canonical (r : EndpointRef) : String := r.endpoint.canonical

/-- The handle that an owner of a main endpoint has: a main endpoint owns nothing itself. -/
def ofMain (m : Ref Endpoint) : EndpointRef := ⟨m.place, ⟨m.value, none⟩⟩

/-- The main endpoint, which is the endpoint itself if it has no instance. -/
def main (r : EndpointRef) : EndpointRef :=
  match r.value.main with
  | some m => ofMain m
  | none => r

end Ref

/-- A handle to a wildcard, which lies somewhere else than the endpoint it is about. -/
abbrev WildcardRef := Ref EndpointRef

/-- What a target is held by. -/
inductive Handle where
  | endpoint (r : EndpointRef)
  | wildcard (w : WildcardRef)
deriving DecidableEq

namespace Handle

/-- The handle to the endpoint that a target is about. -/
def subject : Handle → EndpointRef
  | endpoint r => r
  | wildcard w => w.value

def target : Handle → Target
  | endpoint r => .endpoint r.endpoint
  | wildcard w => .wildcard w.value.endpoint

instance : Coe Handle Target := ⟨target⟩

def text (h : Handle) : String := h.target.text

def isWildcard (h : Handle) : Bool := h.target.isWildcard

/-- Handles are the same when they have the same form and lead to the same place. -/
def same : Handle → Handle → Bool
  | endpoint a, endpoint b => Ref.same a b
  | wildcard a, wildcard b => Ref.same a b
  | _, _ => false

end Handle

/-- What a handle is asked for, after everything that can be wrong with it was judged. -/
inductive HandleRequest where
  /-- A handle to what has a given identity. -/
  | target (t : Target)
  /-- Another handle to something that is held. -/
  | copy (h : Handle)
  /-- The wildcard over an endpoint that is held. -/
  | cover (r : EndpointRef)
deriving DecidableEq

/-- The endpoints and the wildcards. -/
structure Interning where
  endpoints : Registry Interned
  wildcards : Registry EndpointRef
deriving DecidableEq

namespace Interning

def empty : Interning := ⟨.empty, .empty⟩

def find? (t : Interning) (key : String) : Option EndpointRef := t.endpoints.find? key

/-- Whether somebody owns the endpoint with this canonical text. -/
def isInterned (t : Interning) (key : String) : Bool := t.endpoints.contains key

/-- One owner more for what a handle leads to. -/
def share (t : Interning) : Handle → Interning
  | .endpoint r => { t with endpoints := t.endpoints.share r.place }
  | .wildcard w => { t with wildcards := t.wildcards.share w.place }

/-- Gives a handle to an endpoint back. -/
def dropEndpoint (t : Interning) (r : EndpointRef) : Interning :=
  match t.endpoints.drop r.place with
  | (some ⟨_, some main⟩, endpoints) => { t with endpoints := (endpoints.drop main.place).2 }
  | (_, endpoints) => { t with endpoints }

/-- Gives a handle back. -/
def drop (t : Interning) : Handle → Interning
  | .endpoint r => t.dropEndpoint r
  | .wildcard w =>
    match t.wildcards.drop w.place with
    | (some r, wildcards) => { t with wildcards }.dropEndpoint r
    | (none, wildcards) => { t with wildcards }

/-- A handle to the endpoint with the canonical text of `e`: the one that is alive, otherwise `e`,
which then owns `main`. -/
def intern (t : Interning) (e : Endpoint) (main : Option (Ref Endpoint)) :
    EndpointRef × Interning :=
  match t.find? e.canonical with
  | some alive => (alive, t.share (.endpoint alive))
  | none =>
    let (r, endpoints) := t.endpoints.insert e.canonical ⟨e, main⟩
    (r, { t with endpoints })

/-- A handle to an endpoint.  One with an instance takes a handle to its main endpoint first, and
gives it back if the endpoint is alive already. -/
def build (t : Interning) (e : Endpoint) : EndpointRef × Interning :=
  if e.isMain then t.intern e none
  else
    let (main, t) := t.intern e.main none
    let known := t.isInterned e.canonical
    let (r, t) := t.intern e (some ⟨main.place, main.endpoint⟩)
    (r, if known then t.dropEndpoint main else t)

/-- A handle to the wildcard over an endpoint that is held. -/
def cover (t : Interning) (r : EndpointRef) : WildcardRef × Interning :=
  match t.wildcards.find? r.canonical with
  | some alive => (alive, t.share (.wildcard alive))
  | none =>
    let (w, wildcards) := t.wildcards.insert r.canonical r
    (w, { t.share (.endpoint r) with wildcards })

/-- A handle to a target.  A wildcard is made from a handle to its endpoint, which is given back. -/
def acquireTarget (t : Interning) : Target → Handle × Interning
  | .endpoint e =>
    let (r, t) := t.build e
    (.endpoint r, t)
  | .wildcard e =>
    let (r, t) := t.build e
    let (w, t) := t.cover r
    (.wildcard w, t.dropEndpoint r)

def grant (t : Interning) : HandleRequest → Handle × Interning
  | .target target => t.acquireTarget target
  | .copy h => (h, t.share h)
  | .cover r =>
    let (w, t) := t.cover r
    (.wildcard w, t)

end Interning

/-- `Target.satisfies` for what is held, where the filter is not `@@any`: it is enough to look where
handles lead. -/
def Handle.meets (value filter : Handle) : Bool :=
  value.same filter ||
    match value, filter with
    | .endpoint v, .endpoint f => v.main.same f || v.same f
    | .endpoint v, .wildcard w => v.main.same w.value.main
    | .wildcard _, _ => false

end Dxb
