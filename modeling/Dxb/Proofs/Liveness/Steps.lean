import Dxb.Liveness.Cell

/-!
# What a step can do to the calls for an endpoint

`LivenessCell.Step` lists it, each case with what it needs and with all that it changes
(`step?_eq_some_iff`).  Whatever is kept by every case of the list is kept by every step.
-/

namespace Dxb

namespace CallStage

/-- The generation in which a call sent its ping, if it has sent one. -/
def sentIn? : CallStage → Option Nat
  | waiting => none
  | pinging generation _ | replied generation _ => some generation

/-- The ping of a call, sent in a generation, has a result: a reply, or none by the deadline. -/
inductive Over (now : Nat) : CallStage → (generation : Nat) → (result : Bool) → Prop
  | replied (generation : Nat) (success : Bool) :
      Over now (.replied generation success) generation success
  | expired {generation deadline : Nat} (h : deadline ≤ now) :
      Over now (.pinging generation deadline) generation false

theorem Over.sentIn {now generation : Nat} {result : Bool} {stage : CallStage}
    (h : stage.Over now generation result) : stage.sentIn? = some generation := by
  cases h <;> rfl

end CallStage

namespace LivenessCell

variable {p : LivenessPolicy} {now limit : Nat} {c c' : LivenessCell} {event : LivenessEvent}
  {outcome : LivenessOutcome}

/-- Everything that a step can do. -/
inductive Step (p : LivenessPolicy) (now limit : Nat) (c : LivenessCell) :
    LivenessEvent → LivenessOutcome → LivenessCell → Prop
  /-- A call answers from the cache as soon as it begins. -/
  | hit {call : Nat} {online : Bool} (hfresh : ∀ x ∈ c.calls, x.id ≠ call)
      (hcached : c.current? now = some online) :
      Step p now limit c (.enter call) (.answer online) c
  | join {call : Nat} (hfresh : ∀ x ∈ c.calls, x.id ≠ call) (hcached : c.current? now = none) :
      Step p now limit c (.enter call) .nothing { c with calls := c.calls ++ [⟨call, .waiting⟩] }
  /-- A call answers from the cache when it gets the gate. -/
  | find {call : Nat} {others : List PendingCall} {online : Bool}
      (hcalls : c.calls = ⟨call, .waiting⟩ :: others) (hcached : c.current? now = some online) :
      Step p now limit c (.resume call) (.answer online) { c with calls := others }
  | send {call : Nat} {others : List PendingCall} (hcalls : c.calls = ⟨call, .waiting⟩ :: others)
      (hcached : c.current? now = none) :
      Step p now limit c (.resume call) .ping
        { c with calls := ⟨call, .pinging c.generation (now + limit)⟩ :: others }
  /-- A ping ends in the generation in which it was sent. -/
  | store {call : Nat} {stage : CallStage} {others : List PendingCall} {result : Bool}
      (hcalls : c.calls = ⟨call, stage⟩ :: others) (hover : stage.Over now c.generation result) :
      Step p now limit c (.resume call) (.answer result)
        { c with cached := some ⟨result, now + p.ttl result⟩, calls := others }
  /-- A ping ends in another generation. -/
  | discard {call generation : Nat} {stage : CallStage} {others : List PendingCall} {result : Bool}
      (hcalls : c.calls = ⟨call, stage⟩ :: others) (hover : stage.Over now generation result)
      (hstale : c.generation ≠ generation) :
      Step p now limit c (.resume call) (.answer ((c.current? now).getD result))
        { c with calls := others }
  | reply {call generation deadline : Nat} {others : List PendingCall} (success : Bool)
      (hcalls : c.calls = ⟨call, .pinging generation deadline⟩ :: others) :
      Step p now limit c (.reply call success) .nothing
        { c with calls := ⟨call, .replied generation success⟩ :: others }
  | withdraw {call : Nat} (hmem : ∃ x ∈ c.calls, x.id = call) :
      Step p now limit c (.withdraw call) .nothing
        { c with calls := c.calls.filter (·.id != call) }
  | override (online : Bool) :
      Step p now limit c (.override online) .nothing
        { c with cached := some ⟨online, now + p.ttl online⟩, generation := c.generation + 1 }

theorem any_id_eq_false_iff {call : Nat} :
    c.calls.any (·.id == call) = false ↔ ∀ x ∈ c.calls, x.id ≠ call := by
  simp

theorem any_id_eq_true_iff {call : Nat} :
    c.calls.any (·.id == call) = true ↔ ∃ x ∈ c.calls, x.id = call := by
  simp

/-- The call at the gate goes on in one of the ways of the list. -/
theorem step_of_resume? {call : Nat} {stage : CallStage} {others : List PendingCall}
    (hcalls : c.calls = ⟨call, stage⟩ :: others)
    (h : c.resume? p now limit call others stage = some (c', outcome)) :
    Step p now limit c (.resume call) outcome c' := by
  have ended : ∀ {generation result}, stage.Over now generation result →
      c.conclude p now generation result others = (c', outcome) →
      Step p now limit c (.resume call) outcome c' := by
    intro generation result hover hconclude
    unfold conclude at hconclude
    split at hconclude
    · rename_i hgeneration
      subst hgeneration
      cases hconclude
      exact .store hcalls hover
    · rename_i hstale
      cases hconclude
      exact .discard hcalls hover hstale
  cases stage with
  | waiting =>
    simp only [resume?, Option.some.injEq, proceed] at h
    split at h
    · rename_i online hcached
      cases h
      exact .find hcalls hcached
    · rename_i hcached
      cases h
      exact .send hcalls hcached
  | replied generation success =>
    exact ended (.replied generation success) (Option.some.inj h)
  | pinging generation deadline =>
    simp only [resume?] at h
    split at h
    · rename_i hdeadline
      exact ended (.expired hdeadline) (Option.some.inj h)
    · cases h

/-- The list is complete. -/
theorem step_of_step? (h : c.step? p now limit event = some (c', outcome)) :
    Step p now limit c event outcome c' := by
  cases event with
  | enter call =>
    simp only [step?] at h
    split at h
    · cases h
    · rename_i hfresh
      have hfresh := any_id_eq_false_iff.1 (Bool.eq_false_iff.2 hfresh)
      simp only [Option.some.injEq, enter] at h
      split at h
      · rename_i online hcached
        cases h
        exact .hit hfresh hcached
      · rename_i hcached
        cases h
        exact .join hfresh hcached
  | resume call =>
    simp only [step?] at h
    split at h
    · rename_i first stage others hcalls
      split at h
      · rename_i hfirst
        subst hfirst
        exact step_of_resume? hcalls h
      · cases h
    · cases h
  | reply call success =>
    simp only [step?] at h
    split at h
    · rename_i first generation deadline others hcalls
      split at h
      · rename_i hfirst
        subst hfirst
        cases h
        exact .reply success hcalls
      · cases h
    · cases h
  | withdraw call =>
    simp only [step?] at h
    split at h
    · rename_i hmem
      cases h
      exact .withdraw (any_id_eq_true_iff.1 hmem)
    · cases h
  | override online =>
    cases h
    exact .override online

/-- Every case of the list can happen. -/
theorem Step.step?_eq (h : Step p now limit c event outcome c') :
    c.step? p now limit event = some (c', outcome) := by
  cases h with
  | hit hfresh hcached =>
    simp only [step?, any_id_eq_false_iff.2 hfresh, enter, hcached]
    rfl
  | join hfresh hcached =>
    simp only [step?, any_id_eq_false_iff.2 hfresh, enter, hcached]
    rfl
  | find hcalls hcached => simp only [step?, hcalls, resume?, proceed, hcached, if_true]
  | send hcalls hcached => simp only [step?, hcalls, resume?, proceed, hcached, if_true]
  | store hcalls hover =>
    cases hover with
    | replied => simp only [step?, hcalls, resume?, conclude, if_true]
    | expired hdeadline => simp only [step?, hcalls, resume?, conclude, if_true, hdeadline]
  | discard hcalls hover hstale =>
    cases hover with
    | replied => simp only [step?, hcalls, resume?, conclude, if_true, hstale, if_false]
    | expired hdeadline =>
      simp only [step?, hcalls, resume?, conclude, if_true, hstale, if_false, hdeadline]
  | reply success hcalls => simp only [step?, hcalls, if_true]
  | withdraw hmem => simp only [step?, any_id_eq_true_iff.2 hmem, if_true]
  | override online => rfl

theorem step?_eq_some_iff :
    c.step? p now limit event = some (c', outcome) ↔ Step p now limit c event outcome c' :=
  ⟨step_of_step?, Step.step?_eq⟩

/-! ## The cache -/

theorem current?_eq_some_iff {online : Bool} :
    c.current? now = some online ↔
      ∃ expires, c.cached = some ⟨online, expires⟩ ∧ now < expires := by
  unfold current?
  constructor
  · intro h
    obtain ⟨⟨online', expires⟩, hfilter, rfl⟩ := Option.map_eq_some_iff.1 h
    obtain ⟨hcached, hlt⟩ := Option.filter_eq_some_iff.1 hfilter
    exact ⟨expires, hcached, by simpa using hlt⟩
  · rintro ⟨expires, hcached, hlt⟩
    rw [hcached, Option.filter_some_pos (by simpa using hlt)]
    rfl

theorem current?_eq_none_iff :
    c.current? now = none ↔ ∀ r, c.cached = some r → r.expires ≤ now := by
  rw [Option.eq_none_iff_forall_ne_some]
  constructor
  · intro h r hr
    apply Nat.le_of_not_lt
    intro hlt
    exact h r.online (current?_eq_some_iff.2 ⟨r.expires, hr, hlt⟩)
  · intro h online hcurrent
    obtain ⟨expires, hcached, hlt⟩ := current?_eq_some_iff.1 hcurrent
    have hle := h _ hcached
    dsimp only at hle
    omega

/-! ## The queue -/

/-- All but the call at the gate wait. -/
def Queued (c : LivenessCell) : Prop := ∀ x ∈ c.calls.tail, x.stage = .waiting

theorem Queued.others (h : c.Queued) {first : PendingCall} {others : List PendingCall}
    (hcalls : c.calls = first :: others) : ∀ x ∈ others, x.stage = .waiting := by
  unfold Queued at h
  rwa [hcalls] at h

theorem Step.queued (h : Step p now limit c event outcome c') (hc : c.Queued) : c'.Queued := by
  intro x hx
  cases h with
  | hit => exact hc x hx
  | @join entering =>
    cases hcalls : c.calls with
    | nil => simp [hcalls] at hx
    | cons first others =>
      have hx : x ∈ others ++ [⟨entering, .waiting⟩] := by simpa [hcalls] using hx
      rcases List.mem_append.1 hx with hx | hx
      · exact hc.others hcalls x hx
      · rw [List.mem_singleton.1 hx]
  | find hcalls => exact hc.others hcalls x (List.mem_of_mem_tail hx)
  | send hcalls => exact hc.others hcalls x hx
  | store hcalls => exact hc.others hcalls x (List.mem_of_mem_tail hx)
  | discard hcalls => exact hc.others hcalls x (List.mem_of_mem_tail hx)
  | reply success hcalls => exact hc.others hcalls x hx
  | withdraw => exact hc x (List.filter_sublist.tail.subset hx)
  | override => exact hc x hx

/-- Where nobody is let in, nobody is. -/
theorem Step.calls_eq_nil (h : Step p now limit c event outcome c') (hc : c.calls = [])
    (hno : ∀ call, event ≠ .enter call) : c'.calls = [] ∧ outcome ≠ .ping := by
  cases h with
  | hit | join => exact absurd rfl (hno _)
  | find hcalls | send hcalls | store hcalls | discard hcalls | reply _ hcalls =>
    rw [hc] at hcalls
    cases hcalls
  | withdraw => exact ⟨by simp [hc], nofun⟩
  | override => exact ⟨hc, nofun⟩

end LivenessCell

end Dxb
