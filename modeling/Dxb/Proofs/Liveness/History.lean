import Dxb.Liveness.Network
import Dxb.Proofs.Endpoint.Canonical
import Dxb.Proofs.Liveness.Steps

/-!
# Histories of a node

A history is a list of happenings, each a step of the node with the states around it, in any order
that the steps allow (`Network.Run`).  Calls for different endpoints, overrides and the clock take
their steps in between each other.  What happens to one endpoint is a step of its cell
(`Takes.step`), and nothing else changes the cell (`Takes.cell_eq`).

What a node knows of an endpoint lasts as long as somebody holds the endpoint.  A run is about
endpoints that are held from its beginning to its end; once one is let go, what was known of it is
forgotten (`NodeState.keep`), and another run begins.
-/

namespace Dxb

open Target (sameEndpoint)

/-- A step of a node, with the states before and after it. -/
structure Happening where
  before : NodeState
  event : NodeEvent
  outcome : LivenessOutcome
  after : NodeState

namespace Happening

def now (o : Happening) : Nat := o.before.now

/-- What happened to an endpoint, if the happening was about it. -/
def at? (o : Happening) (e : Endpoint) : Option LivenessEvent :=
  match o.event with
  | .cell e' event => if sameEndpoint e' e then some event else none
  | .elapse _ => none

/-- The cell of an endpoint before the happening. -/
def cellBefore (o : Happening) (e : Endpoint) : LivenessCell := o.before.cell e.canonical

def cellAfter (o : Happening) (e : Endpoint) : LivenessCell := o.after.cell e.canonical

/-- A call for an endpoint begins. -/
def Begins (o : Happening) (e : Endpoint) (call : Nat) : Prop := o.at? e = some (.enter call)

/-- A call sends a ping to an endpoint. -/
def Sends (o : Happening) (e : Endpoint) (call : Nat) : Prop :=
  o.at? e = some (.resume call) ∧ o.outcome = .ping

/-- A call for an endpoint returns. -/
def Answers (o : Happening) (e : Endpoint) (call : Nat) (online : Bool) : Prop :=
  (o.at? e = some (.enter call) ∨ o.at? e = some (.resume call)) ∧ o.outcome = .answer online

def Overrides (o : Happening) (e : Endpoint) (online : Bool) : Prop :=
  o.at? e = some (.override online)

/-- A call for an endpoint is given up. -/
def GivesUp (o : Happening) (e : Endpoint) (call : Nat) : Prop := o.at? e = some (.withdraw call)

/-- A call for an endpoint is over. -/
def Ends (o : Happening) (e : Endpoint) (call : Nat) : Prop :=
  (∃ online, o.Answers e call online) ∨ o.GivesUp e call

/-- The clock has not passed the deadline of a ping that is out, so no call is late to notice it. -/
def Punctual (o : Happening) (e : Endpoint) : Prop :=
  ∀ x ∈ (o.cellBefore e).calls, ∀ generation deadline,
    x.stage = .pinging generation deadline → o.now ≤ deadline

/-- Other happenings leave a call under way. -/
theorem not_ends {o : Happening} {e : Endpoint} {call : Nat} (henter : o.at? e ≠ some (.enter call))
    (hresume : o.at? e ≠ some (.resume call)) (hwithdraw : o.at? e ≠ some (.withdraw call)) :
    ¬ o.Ends e call := by
  rintro (⟨-, hat | hat, -⟩ | hat)
  · exact henter hat
  · exact hresume hat
  · exact hwithdraw hat

section

variable (o : Happening) (e : Endpoint) (call : Nat) (online : Bool)

instance : Decidable (o.Begins e call) := inferInstanceAs (Decidable (_ = _))
instance : Decidable (o.Sends e call) := inferInstanceAs (Decidable (_ ∧ _))
instance : Decidable (o.Answers e call online) := inferInstanceAs (Decidable (_ ∧ _))
instance : Decidable (o.Overrides e online) := inferInstanceAs (Decidable (_ = _))
instance : Decidable (o.GivesUp e call) := inferInstanceAs (Decidable (_ = _))
instance : Decidable (o.Ends e call) := inferInstanceAs (Decidable (_ ∨ _))

end

end Happening

/-- A call that is under way is still so after some happenings. -/
def Pending (e : Endpoint) (call : Nat) (os : List Happening) : Prop := ∀ o ∈ os, ¬ o.Ends e call

instance (e : Endpoint) (call : Nat) (os : List Happening) : Decidable (Pending e call os) :=
  inferInstanceAs (Decidable (∀ o ∈ os, _))

/-- A call that is under way returns in the course of some happenings: it is over for the first time
by an answer. -/
def Returns (e : Endpoint) (call : Nat) (online : Bool) (os : List Happening) : Prop :=
  ∃ o, os.find? (fun o => o.Ends e call) = some o ∧ o.Answers e call online

section

variable {e : Endpoint} {call : Nat} {online : Bool} {os os' : List Happening} {o : Happening}

theorem pending_iff : Pending e call os ↔ os.find? (fun o => o.Ends e call) = none := by
  simp [Pending]

theorem pending_append_iff :
    Pending e call (os ++ os') ↔ Pending e call os ∧ Pending e call os' :=
  List.forall_mem_append

theorem Pending.returns (h : Pending e call os) (ho : o.Answers e call online) :
    Returns e call online (os ++ [o]) := by
  have hends : o.Ends e call := .inl ⟨online, ho⟩
  exact ⟨o, by rw [List.find?_append, pending_iff.1 h]; simp [hends], ho⟩

namespace Returns

theorem append (h : Returns e call online os) (more : List Happening) :
    Returns e call online (os ++ more) := by
  obtain ⟨o, hfirst, ho⟩ := h
  exact ⟨o, by rw [List.find?_append, hfirst]; rfl, ho⟩

theorem not_pending (h : Returns e call online os) : ¬ Pending e call os := by
  obtain ⟨o, hfirst, -⟩ := h
  rw [pending_iff, hfirst]
  nofun

/-- A call returns once. -/
theorem unique {other : Bool} (h : Returns e call online os) (h' : Returns e call other os) :
    online = other := by
  obtain ⟨o, hfirst, -, ho⟩ := h
  obtain ⟨o', hfirst', -, ho'⟩ := h'
  rw [hfirst] at hfirst'
  cases hfirst'
  rw [ho] at ho'
  exact LivenessOutcome.answer.inj ho'

theorem exists_split (h : Returns e call online os) :
    ∃ before o after, os = before ++ o :: after ∧ Pending e call before ∧
      o.Answers e call online := by
  obtain ⟨o, hfirst, ho⟩ := h
  obtain ⟨-, before, after, rfl, hbefore⟩ := List.find?_eq_some_iff_append.1 hfirst
  exact ⟨before, o, after, rfl, fun x hx => by simpa using hbefore x hx, ho⟩

end Returns

end

namespace Network

variable {n : Network} {o : Happening} {os : List Happening} {s s' : NodeState} {e e' : Endpoint}

/-- The happening is a step of the node. -/
def Takes (n : Network) (o : Happening) : Prop :=
  n.step? o.before o.event = some (o.after, o.outcome)

/-- Some happenings lead from one state to another.  Every endpoint stays held in the course of
them, so that nothing is forgotten. -/
inductive Run (n : Network) : NodeState → List Happening → NodeState → Prop
  | nil (s : NodeState) : Run n s [] s
  | cons {o : Happening} {os : List Happening} {s' : NodeState} (h : n.Takes o)
      (rest : Run n o.after os s') : Run n o.before (o :: os) s'

theorem run_nil_iff : n.Run s [] s' ↔ s = s' := by
  constructor
  · intro h
    cases h
    rfl
  · rintro rfl
    exact .nil s

theorem run_cons_iff : n.Run s (o :: os) s' ↔ o.before = s ∧ n.Takes o ∧ n.Run o.after os s' := by
  constructor
  · intro h
    cases h with
    | cons h rest => exact ⟨rfl, h, rest⟩
  · rintro ⟨rfl, h, rest⟩
    exact .cons h rest

instance : Decidable (n.Takes o) := inferInstanceAs (Decidable (_ = _))

/-- Whether some happenings are a run can be computed. -/
instance decidableRun (n : Network) :
    (s : NodeState) → (os : List Happening) → (s' : NodeState) → Decidable (n.Run s os s')
  | _, [], _ => decidable_of_iff _ run_nil_iff.symm
  | _, o :: os, s' =>
    have := decidableRun n o.after os s'
    decidable_of_iff _ run_cons_iff.symm

/-- No call has a step to take. -/
def Idle (n : Network) (s : NodeState) : Prop :=
  ∀ e call, n.step? s (.cell e (.resume call)) = none

/-! ## Endpoints with one canonical text -/

theorem sameEndpoint_congr (h : e'.canonical = e.canonical) : sameEndpoint e' = sameEndpoint e := by
  funext x
  simp only [sameEndpoint, h]

theorem alwaysOnline_congr (h : e'.canonical = e.canonical) :
    n.alwaysOnline e' = n.alwaysOnline e := by
  simp only [alwaysOnline, sameEndpoint_congr h]

theorem pingTimeout_congr (h : e'.canonical = e.canonical) :
    n.pingTimeout e' = n.pingTimeout e := by
  have hmain : e'.main.canonical = e.main.canonical := by
    rw [Endpoint.canonical_main, Endpoint.canonical_main]
    exact (Endpoint.canonical_eq_iff_of_parts.1 h).1
  simp only [pingTimeout, sameEndpoint_congr hmain]

/-! ## One happening -/

theorem event_eq_of_at? {event : LivenessEvent} (h : o.at? e = some event) :
    ∃ e', e'.canonical = e.canonical ∧ o.event = .cell e' event := by
  unfold Happening.at? at h
  split at h
  · rename_i e' event' heq
    split at h
    · rename_i hsame
      cases h
      exact ⟨e', by simpa [sameEndpoint] using hsame, heq⟩
    · cases h
  · cases h

/-- A step of a cell leaves the clock and all other cells. -/
theorem step?_cell {event : LivenessEvent} {outcome : LivenessOutcome}
    (h : n.step? s (.cell e event) = some (s', outcome)) :
    (n.alwaysOnline e = true ∧ (∃ call, event = .enter call) ∧ outcome = .answer true ∧ s' = s) ∨
      (n.alwaysOnline e = true → ∀ call, event ≠ .enter call) ∧
        ∃ c, (s.cell e.canonical).step? n.policy s.now (n.pingTimeout e) event =
            some (c, outcome) ∧ s' = s.setCell e.canonical c := by
  unfold step? at h
  dsimp only at h
  split at h
  · rename_i call halways
    cases h
    exact .inl ⟨halways, ⟨call, rfl⟩, rfl, rfl⟩
  · rename_i hno
    right
    simp only [Option.bind_eq_bind, Option.bind_eq_some_iff, Option.pure_def, Option.some.injEq,
      Prod.mk.injEq] at h
    obtain ⟨⟨c, outcome'⟩, hstep, rfl, rfl⟩ := h
    refine ⟨?_, c, hstep, rfl⟩
    rintro halways call rfl
    exact hno call halways rfl

/-- A call that has begun goes on by a step of the cell. -/
theorem step?_resume (call : Nat) :
    n.step? s (.cell e (.resume call)) =
      ((s.cell e.canonical).step? n.policy s.now (n.pingTimeout e) (.resume call)).map
        fun (c, outcome) => (s.setCell e.canonical c, outcome) := by
  unfold step?
  dsimp only
  split
  · rename_i hevent
    cases hevent
  · cases (s.cell e.canonical).step? n.policy s.now (n.pingTimeout e) (.resume call) <;> rfl

namespace Takes

theorem now_le (h : n.Takes o) : o.now ≤ o.after.now := by
  unfold Takes at h
  cases hevent : o.event with
  | elapse millis =>
    rw [hevent] at h
    cases h' : o.after
    rw [h'] at h
    simp only [step?, Option.some.injEq, Prod.mk.injEq, NodeState.mk.injEq] at h
    have hnow := h.1.1
    unfold Happening.now
    dsimp only
    omega
  | cell e event =>
    rw [hevent] at h
    rcases step?_cell h with ⟨-, -, -, hafter⟩ | ⟨-, c, -, hafter⟩ <;> rw [hafter] <;>
      exact Nat.le_refl _

/-- Only the clock's own happenings move it. -/
theorem now_eq (h : n.Takes o) (he : ∀ millis, o.event ≠ .elapse millis) :
    o.after.now = o.now := by
  unfold Takes at h
  cases hevent : o.event with
  | elapse millis => exact absurd hevent (he millis)
  | cell e event =>
    rw [hevent] at h
    rcases step?_cell h with ⟨-, -, -, hafter⟩ | ⟨-, c, -, hafter⟩ <;> rw [hafter] <;> rfl

/-- A happening about another endpoint leaves the cell as it is. -/
theorem cell_eq (h : n.Takes o) (he : o.at? e = none) : o.cellAfter e = o.cellBefore e := by
  unfold Takes at h
  unfold Happening.cellAfter Happening.cellBefore
  cases hevent : o.event with
  | elapse millis =>
    rw [hevent] at h
    simp only [step?, Option.some.injEq, Prod.mk.injEq] at h
    rw [← h.1]
    rfl
  | cell e' event =>
    rw [hevent] at h
    have hne : e'.canonical ≠ e.canonical := by
      simpa [Happening.at?, hevent, sameEndpoint] using he
    rcases step?_cell h with ⟨-, -, -, hafter⟩ | ⟨-, c, -, hafter⟩
    · rw [hafter]
    · rw [hafter, NodeState.cell_setCell_ne _ _ hne]

/-- A happening about an endpoint is a step of its cell; only calls for an endpoint that is always
online are answered without it. -/
theorem step (h : n.Takes o) {event : LivenessEvent} (he : o.at? e = some event) :
    (n.alwaysOnline e = true ∧ (∃ call, event = .enter call) ∧ o.outcome = .answer true ∧
        o.cellAfter e = o.cellBefore e) ∨
      (n.alwaysOnline e = true → ∀ call, event ≠ .enter call) ∧
        LivenessCell.Step n.policy o.now (n.pingTimeout e) (o.cellBefore e) event o.outcome
          (o.cellAfter e) := by
  unfold Takes at h
  obtain ⟨e', hsame, hevent⟩ := event_eq_of_at? he
  rw [hevent] at h
  unfold Happening.cellAfter Happening.cellBefore Happening.now
  rcases step?_cell h with ⟨halways, hcall, houtcome, hafter⟩ | ⟨hno, c, hstep, hafter⟩
  · rw [alwaysOnline_congr hsame] at halways
    rw [hafter]
    exact .inl ⟨halways, hcall, houtcome, rfl⟩
  · rw [alwaysOnline_congr hsame] at hno
    rw [hsame, pingTimeout_congr hsame] at hstep
    rw [hafter, hsame, NodeState.cell_setCell]
    exact .inr ⟨hno, LivenessCell.step_of_step? hstep⟩

theorem step_of_not_always (h : n.Takes o) (he : n.alwaysOnline e = false) {event : LivenessEvent}
    (hevent : o.at? e = some event) :
    LivenessCell.Step n.policy o.now (n.pingTimeout e) (o.cellBefore e) event o.outcome
      (o.cellAfter e) := by
  rcases h.step hevent with ⟨halways, -⟩ | ⟨-, hstep⟩
  · rw [he] at halways
    cases halways
  · exact hstep

theorem step_of_resume (h : n.Takes o) {call : Nat} (hevent : o.at? e = some (.resume call)) :
    LivenessCell.Step n.policy o.now (n.pingTimeout e) (o.cellBefore e) (.resume call) o.outcome
      (o.cellAfter e) := by
  rcases h.step hevent with ⟨-, ⟨call', hcall⟩, -⟩ | ⟨-, hstep⟩
  · cases hcall
  · exact hstep

end Takes

/-! ## Many happenings -/

theorem Run.append {os' : List Happening} {m : NodeState} (h : n.Run s os m)
    (h' : n.Run m os' s') : n.Run s (os ++ os') s' := by
  induction h with
  | nil s => exact h'
  | cons h rest ih => exact .cons h (ih h')

/-- A run falls apart at every happening of it. -/
theorem Run.split {past rest : List Happening} (h : n.Run s (past ++ o :: rest) s') :
    n.Run s past o.before ∧ n.Takes o ∧ n.Run o.after rest s' := by
  induction past generalizing s with
  | nil =>
    cases h with
    | cons h rest => exact ⟨.nil _, h, rest⟩
  | cons first past ih =>
    cases h with
    | cons h rest =>
      obtain ⟨hpast, ho, hrest⟩ := ih rest
      exact ⟨.cons h hpast, ho, hrest⟩

/-- What every happening of a run keeps, the run keeps.  The property may depend on the past. -/
theorem Run.induction {P : List Happening → NodeState → Prop} (h : n.Run s os s') (hs : P [] s)
    (hstep : ∀ past o, o ∈ os → n.Takes o → P past o.before → P (past ++ [o]) o.after) :
    P os s' := by
  have behind : ∀ past, P past s → P (past ++ os) s' := by
    clear hs
    induction h with
    | nil s =>
      intro past hs
      rw [List.append_nil]
      exact hs
    | @cons o os s' h rest ih =>
      intro past hs
      have hrest := ih (fun past o' ho' => hstep past o' (List.mem_cons_of_mem _ ho'))
        (past ++ [o]) (hstep past o List.mem_cons_self h hs)
      rw [List.append_assoc] at hrest
      exact hrest
  exact behind [] hs

/-- A property of states alone. -/
theorem Run.keeps {P : NodeState → Prop} (h : n.Run s os s') (hs : P s)
    (hstep : ∀ o ∈ os, n.Takes o → P o.before → P o.after) : P s' :=
  h.induction (P := fun _ => P) hs fun _ o ho htakes => hstep o ho htakes

/-- What every step of a cell keeps, a run of the node keeps of it. -/
theorem Run.keeps_cell {P : LivenessCell → Prop} (h : n.Run s os s') (hs : P (s.cell e.canonical))
    (hstep : ∀ o ∈ os, ∀ event, o.at? e = some event →
      (n.alwaysOnline e = true → ∀ call, event ≠ .enter call) →
      LivenessCell.Step n.policy o.now (n.pingTimeout e) (o.cellBefore e) event o.outcome
        (o.cellAfter e) → P (o.cellBefore e) → P (o.cellAfter e)) : P (s'.cell e.canonical) := by
  refine h.keeps (P := fun s => P (s.cell e.canonical)) hs ?_
  intro o ho htakes hbefore
  show P (o.cellAfter e)
  cases hat : o.at? e with
  | none =>
    rw [htakes.cell_eq hat]
    exact hbefore
  | some event =>
    rcases htakes.step hat with ⟨-, -, -, hsame⟩ | ⟨hno, hcell⟩
    · rw [hsame]
      exact hbefore
    · exact hstep o ho event hat hno hcell hbefore

theorem Run.queued (h : n.Run .initial os s) (e : Endpoint) : (s.cell e.canonical).Queued := by
  refine h.keeps_cell (P := LivenessCell.Queued) nofun ?_
  exact fun o _ event _ _ hstep hbefore => hstep.queued hbefore

/-- Nobody waits for an endpoint that is always online, and nobody pings it. -/
theorem Run.calls_eq_nil (h : n.Run .initial os s) (he : n.alwaysOnline e = true) :
    (s.cell e.canonical).calls = [] := by
  refine h.keeps_cell (P := fun c => c.calls = []) rfl ?_
  exact fun o _ event _ hno hstep hbefore => (hstep.calls_eq_nil hbefore (hno he)).1

/-- The clock never goes back. -/
theorem Run.now_le (h : n.Run s os s') : s.now ≤ s'.now := by
  induction h with
  | nil s => exact Nat.le_refl _
  | cons h rest ih => exact Nat.le_trans h.now_le ih

theorem Run.now_le_of_mem (h : n.Run s os s') (ho : o ∈ os) : o.now ≤ s'.now := by
  obtain ⟨past, rest, rfl⟩ := List.append_of_mem ho
  obtain ⟨-, htakes, hrest⟩ := h.split
  exact Nat.le_trans htakes.now_le hrest.now_le

end Network

end Dxb
