import Dxb.Liveness.Simulation
import Dxb.Proofs.Liveness.History

/-!
# What a simulation does to its node

A simulation lets steps of its node happen, moves its clock on, and lets the node forget endpoints
that nobody holds any more.  Nothing else changes the state of the node: a simulated step is a
sequence of runs with something forgotten in between (`Simulation.leads_step`), and so are all steps
together (`Simulation.leads_steps`).  So whatever holds of every run holds of a simulation from one
moment of forgetting to the next.
-/

namespace Dxb

/-- A node gets from one state to another by runs, between which it forgets endpoints. -/
inductive Network.Reaches (n : Network) (s : NodeState) : NodeState → Prop
  | run {os : List Happening} {s' : NodeState} (h : n.Run s os s') : n.Reaches s s'
  | forget {t s' : NodeState} {os : List Happening} (wanted : String → Bool)
      (before : n.Reaches s t) (h : n.Run (t.keep wanted) os s') : n.Reaches s s'

theorem Network.Reaches.trans {n : Network} {s t u : NodeState} (h : n.Reaches s t)
    (h' : n.Reaches t u) : n.Reaches s u := by
  induction h' with
  | run hrun =>
    cases h with
    | run hfirst => exact .run (hfirst.append hrun)
    | forget wanted before hfirst => exact .forget wanted before (hfirst.append hrun)
  | forget wanted _ hrun ih => exact .forget wanted ih hrun

namespace Simulation

/-- A simulation leads to another one of the same node. -/
structure Leads (s s' : Simulation) : Prop where
  network : s'.network = s.network
  reaches : s.network.Reaches s.state s'.state

variable {s s' s'' : Simulation}

/-! ## Single steps -/

theorem leads_of_eq (hnetwork : s'.network = s.network) (hstate : s'.state = s.state) :
    s.Leads s' :=
  ⟨hnetwork, by rw [hstate]; exact .run (.nil s.state)⟩

theorem Leads.refl (s : Simulation) : s.Leads s := leads_of_eq rfl rfl

theorem Leads.trans (h : s.Leads s') (h' : s'.Leads s'') : s.Leads s'' :=
  ⟨h'.network.trans h.network, h.reaches.trans (h.network ▸ h'.reaches)⟩

/-- A step of the node. -/
theorem leads_of_step? {event : NodeEvent} {state : NodeState} {outcome : LivenessOutcome}
    (h : s.network.step? s.state event = some (state, outcome)) : s.Leads { s with state } :=
  ⟨rfl, .run (.cons (o := ⟨s.state, event, outcome, state⟩) h (.nil state))⟩

theorem leads_happen (s : Simulation) (e : Endpoint) (event : LivenessEvent) :
    s.Leads (s.happen e event).2 := by
  unfold happen
  split
  · rename_i hstep
    exact leads_of_step? hstep
  · exact .refl s

theorem leads_moveTo (s : Simulation) (moment : Nat) : s.Leads (s.moveTo moment) := by
  have hmove : s.state.now + (max s.now moment - s.now) = max s.now moment :=
    Nat.add_sub_of_le (Nat.le_max_left s.now moment)
  have helapse : s.network.step? s.state (.elapse (max s.now moment - s.now)) =
      some ({ s.state with now := s.state.now + (max s.now moment - s.now) }, .nothing) := rfl
  rw [hmove] at helapse
  exact leads_of_step? helapse

theorem leads_giveBack (s : Simulation) (held : List EndpointRef) : s.Leads (s.giveBack held) :=
  ⟨rfl, .forget _ (.run (.nil s.state)) (.nil _)⟩

theorem leads_finish (s : Simulation) (held : List EndpointRef) (answer : TaskAnswer) :
    s.Leads (s.finish held answer).2 := s.leads_giveBack held

theorem leads_grant (s : Simulation) (r : HandleRequest) : s.Leads (s.grant r).2 :=
  leads_of_eq rfl rfl

theorem leads_take (s : Simulation) (es : List Endpoint) : s.Leads (s.take es).2 :=
  leads_of_eq rfl rfl

/-! ## Tasks -/

theorem leads_afterCall (s : Simulation) (e : EndpointRef) (giveUp : Option Nat)
    (outcome : LivenessOutcome) : s.Leads (s.afterCall e giveUp outcome).2 := by
  cases outcome with
  | nothing => exact .refl s
  | answer online => exact s.leads_finish _ _
  | ping => exact leads_of_eq rfl rfl

theorem leads_afterTrace (s : Simulation) (held : List EndpointRef) (r : TraceRequest) :
    s.Leads (s.afterTrace held r).2 := by
  unfold afterTrace
  split
  · exact s.leads_finish _ _
  · exact .refl s

theorem leads_begin (s : Simulation) (call : Nat) (action : TaskAction) :
    s.Leads (s.begin call action).2 := by
  unfold begin
  cases action with
  | isOnline subject giveUpAfter =>
    dsimp only
    split
    · exact ((s.leads_grant _).trans (leads_happen _ _ _)).trans (leads_afterCall _ _ _ _)
    · exact s.leads_finish _ _
  | setOnline subject online =>
    dsimp only
    split
    · exact ((s.leads_grant _).trans (leads_happen _ _ _)).trans (leads_finish _ _ _)
    · exact s.leads_finish _ _
  | pingTimeout subject =>
    dsimp only
    split
    · exact (s.leads_grant _).trans (leads_finish _ _ _)
    · exact s.leads_finish _ _
  | localNode => exact s.leads_finish _ _
  | isInterned text => exact s.leads_finish _ _
  | trace subject =>
    dsimp only
    split
    · exact (s.leads_grant _).trans (leads_afterTrace _ _ _)
    · exact s.leads_finish _ _
  | receiveTrace origin destination hops =>
    dsimp only
    split
    · exact (s.leads_take _).trans (leads_afterTrace _ _ _)
    · exact s.leads_finish _ _

theorem leads_goOn (s : Simulation) (call : Nat) (stage : TaskStage) :
    s.Leads (s.goOn call stage).2 := by
  unfold goOn
  cases stage with
  | sleeping wake action =>
    dsimp only
    split
    · exact s.leads_begin call action
    · exact .refl s
  | queued e giveUp => exact (s.leads_happen _ _).trans (leads_afterCall _ _ _ _)
  | pinging e due reply giveUp =>
    dsimp only
    split
    · -- the reply comes before the call notices that its ping has ended
      have noticed : ∀ {t s' : Simulation} {outcome : LivenessOutcome}, s.Leads t →
          t.happen e.endpoint (.resume call) = (outcome, s') → s.Leads s' := by
        intro t s' outcome ht hresume
        have hleads := ht.trans (t.leads_happen e.endpoint (.resume call))
        rwa [hresume] at hleads
      cases reply with
      | none =>
        split
        · rename_i hanswer
          exact (noticed (.refl s) hanswer).trans (leads_finish _ _ _)
        · rename_i hanswer
          exact noticed (.refl s) hanswer
      | some success =>
        have hreplied := s.leads_happen e.endpoint (.reply call success)
        split
        · rename_i hanswer
          exact (noticed hreplied hanswer).trans (leads_finish _ _ _)
        · rename_i hanswer
          exact noticed hreplied hanswer
    · exact .refl s
  | tracing held due answer =>
    dsimp only
    split
    · exact s.leads_finish held answer
    · exact .refl s
  | finished moment answer => exact .refl s

theorem leads_giveUp (s : Simulation) (call : Nat) (stage : TaskStage) :
    s.Leads (s.giveUp call stage).2 := by
  unfold giveUp
  split
  · split
    · exact (s.leads_happen _ _).trans (leads_finish _ _ _)
    · exact .refl s
  · split
    · exact (s.leads_happen _ _).trans (leads_finish _ _ _)
    · exact .refl s
  · exact .refl s

theorem leads_poll (s : Simulation) (call : Nat) (stage : TaskStage) :
    s.Leads (s.poll call stage).2 :=
  (((s.leads_goOn _ _).trans (leads_goOn _ _ _)).trans (leads_goOn _ _ _)).trans
    (leads_giveUp _ _ _)

theorem leads_pollAll (s : Simulation) (call : Nat) (stages : List TaskStage) :
    s.Leads (s.pollAll call stages).2 := by
  induction stages generalizing s call with
  | nil => exact .refl s
  | cons stage stages ih => exact (s.leads_poll call stage).trans (ih _ _)

/-- Every round takes the tasks further, or the clock was moved and they got no further then. -/
theorem leads_run (s : Simulation) (stages : List TaskStage) : s.Leads (s.run stages).2 := by
  induction hrank : ranks stages using Nat.strong_induction_on generalizing s stages with
  | _ rank ih =>
    subst hrank
    have hpolled := s.leads_pollAll 0 stages
    unfold run
    generalize s.pollAll 0 stages = round at hpolled ⊢
    obtain ⟨polled, t⟩ := round
    dsimp only at hpolled ⊢
    split
    · rename_i hless
      exact hpolled.trans (ih _ hless t polled rfl)
    · split
      · exact hpolled
      · rename_i moment _
        have hmoved := (hpolled.trans (t.leads_moveTo moment)).trans (leads_pollAll _ 0 stages)
        generalize (t.moveTo moment).pollAll 0 stages = round at hmoved ⊢
        obtain ⟨polled, t⟩ := round
        dsimp only at hmoved ⊢
        split
        · rename_i hless
          exact hmoved.trans (ih _ hless t polled rfl)
        · exact hmoved

theorem leads_runTasks (s : Simulation) (tasks : List (Nat × TaskAction)) :
    s.Leads (s.runTasks tasks).2 := s.leads_run _

/-! ## Simulated steps -/

/-- A simulated step is a sequence of runs of the node, in between which something is forgotten. -/
theorem leads_step (s : Simulation) (step : SimulationStep) : s.Leads (s.step step).2 := by
  have changed : ∀ holdings : Holdings, s.Leads ({ s with holdings }.giveBack []) :=
    fun holdings => by
      have hholdings : s.Leads { s with holdings } := leads_of_eq rfl rfl
      exact hholdings.trans (leads_giveBack _ [])
  unfold Simulation.step
  cases step with
  | hold slot text =>
    dsimp only
    split
    · exact changed _
    · exact changed _
  | release slot => exact changed _
  | advance millis => exact s.leads_moveTo _
  | task action =>
    have hleads := s.leads_runTasks [(0, action)]
    dsimp only
    split
    · rename_i answer rest s' hanswers
      rwa [hanswers] at hleads
    · rename_i s' hanswers
      rwa [hanswers] at hleads
  | together tasks => exact s.leads_runTasks tasks

/-- So is a whole simulation. -/
theorem leads_steps (s : Simulation) (steps : List SimulationStep) :
    s.Leads (steps.foldl (fun s step => (s.step step).2) s) := by
  induction steps generalizing s with
  | nil => exact .refl s
  | cons step steps ih => exact (s.leads_step step).trans (ih _)

end Simulation

end Dxb
