import Dxb.Proofs.Liveness.History

/-!
# Calls share a ping

The call at the gate is the only one whose ping can be out (`PingOut`), so no other is sent before
that call is over.  A call that begins meanwhile joins the queue.  If there is no override, the ping
is stored when it ends, the stored result stands since the clock does not move before the queue is
empty, and so everyone in the queue returns it (`pings_shared`).
-/

namespace Dxb

open Target (sameEndpoint)

namespace LivenessCell

variable {p : LivenessPolicy} {now limit : Nat} {c c' : LivenessCell} {event : LivenessEvent}
  {outcome : LivenessOutcome} {call : Nat}

/-- The call at the gate has sent a ping that it still waits for. -/
def PingOut (c : LivenessCell) (call : Nat) : Prop :=
  ∃ stage others, c.calls = ⟨call, stage⟩ :: others ∧ stage.sentIn? ≠ none

theorem Step.pingOut (h : Step p now limit c (.resume call) .ping c') : c'.PingOut call := by
  cases h
  exact ⟨_, _, rfl, nofun⟩

/-- While a ping is out, no other is sent, and it is out until its call is over. -/
theorem PingOut.step (h : c.PingOut call) (hstep : Step p now limit c event outcome c') :
    outcome ≠ .ping ∧
      (c'.PingOut call ∨ (event = .resume call ∧ ∃ online, outcome = .answer online) ∨
        event = .withdraw call) := by
  obtain ⟨stage, others, hcalls, hsent⟩ := h
  cases hstep with
  | hit => exact ⟨nofun, .inl ⟨stage, others, hcalls, hsent⟩⟩
  | join => exact ⟨nofun, .inl ⟨stage, _, by rw [hcalls]; rfl, hsent⟩⟩
  | find hcalls' =>
    rw [hcalls] at hcalls'
    cases hcalls'
    exact absurd rfl hsent
  | send hcalls' =>
    rw [hcalls] at hcalls'
    cases hcalls'
    exact absurd rfl hsent
  | store hcalls' =>
    rw [hcalls] at hcalls'
    cases hcalls'
    exact ⟨nofun, .inr (.inl ⟨rfl, _, rfl⟩)⟩
  | discard hcalls' =>
    rw [hcalls] at hcalls'
    cases hcalls'
    exact ⟨nofun, .inr (.inl ⟨rfl, _, rfl⟩)⟩
  | reply success hcalls' =>
    rw [hcalls] at hcalls'
    cases hcalls'
    exact ⟨nofun, .inl ⟨_, _, rfl, nofun⟩⟩
  | @withdraw other =>
    refine ⟨nofun, ?_⟩
    by_cases hother : other = call
    · exact .inr (.inr (by rw [hother]))
    · exact .inl ⟨stage, others.filter (·.id != other), by simp [hcalls, Ne.symm hother], hsent⟩
  | override => exact ⟨nofun, .inl ⟨stage, others, hcalls, hsent⟩⟩

/-! ## The queue -/

/-- A call is under way until it returns or is given up. -/
theorem Step.under_way (h : Step p now limit c event outcome c') (hc : ∃ x ∈ c.calls, x.id = call) :
    (∃ x ∈ c'.calls, x.id = call) ∨ (event = .resume call ∧ ∃ online, outcome = .answer online) ∨
      event = .withdraw call := by
  obtain ⟨x, hx, hid⟩ := hc
  -- when the call at the gate is over, the others stay
  have leave : ∀ {first stage others online}, c.calls = ⟨first, stage⟩ :: others →
      (∃ y ∈ others, y.id = call) ∨ (LivenessEvent.resume first = .resume call ∧
        ∃ v, LivenessOutcome.answer online = .answer v) ∨
        LivenessEvent.resume first = .withdraw call := by
    intro first stage others online hcalls
    rw [hcalls] at hx
    rcases List.mem_cons.1 hx with rfl | hx
    · exact .inr (.inl ⟨by rw [← hid], online, rfl⟩)
    · exact .inl ⟨x, hx, hid⟩
  have move : ∀ {first stage stage' others}, c.calls = ⟨first, stage⟩ :: others →
      ∃ y ∈ (⟨first, stage'⟩ :: others : List PendingCall), y.id = call := by
    intro first stage stage' others hcalls
    rw [hcalls] at hx
    rcases List.mem_cons.1 hx with rfl | hx
    · exact ⟨_, List.mem_cons_self, hid⟩
    · exact ⟨x, List.mem_cons_of_mem _ hx, hid⟩
  cases h with
  | hit => exact .inl ⟨x, hx, hid⟩
  | join => exact .inl ⟨x, List.mem_append_left _ hx, hid⟩
  | find hcalls => exact leave hcalls
  | send hcalls => exact .inl (move hcalls)
  | store hcalls => exact leave hcalls
  | discard hcalls => exact leave hcalls
  | reply success hcalls => exact .inl (move hcalls)
  | @withdraw other =>
    by_cases hother : other = call
    · exact .inr (.inr (by rw [hother]))
    · exact .inl ⟨x, List.mem_filter.2 ⟨hx, by simpa [hid] using Ne.symm hother⟩, hid⟩
  | override => exact .inl ⟨x, hx, hid⟩

/-! ## While the ping is out, and when it is stored -/

/-- The ping of a call is out in the present generation, everyone else waits, and nothing that is
cached stands from a moment on. -/
structure Awaited (c : LivenessCell) (call since : Nat) : Prop where
  gate : ∃ stage others, c.calls = ⟨call, stage⟩ :: others ∧
    stage.sentIn? = some c.generation ∧ ∀ x ∈ others, x.stage = .waiting
  expired : ∀ r, c.cached = some r → r.expires ≤ since

/-- A result stands, and everyone in the queue waits. -/
structure Settled (c : LivenessCell) (online : Bool) (expires : Nat) : Prop where
  cached : c.cached = some ⟨online, expires⟩
  waiting : ∀ x ∈ c.calls, x.stage = .waiting

theorem Step.awaited (h : Step p now limit c (.resume call) .ping c') (hc : c.Queued) :
    c'.Awaited call now := by
  cases h with
  | send hcalls hcached =>
    exact ⟨⟨_, _, rfl, rfl, hc.others hcalls⟩, current?_eq_none_iff.1 hcached⟩

/-- Without an override, the ping stays out in its generation until it is stored. -/
theorem Awaited.step {since : Nat} (h : c.Awaited call since) (hnow : since ≤ now)
    (hstep : Step p now limit c event outcome c') (hother : ∀ v, event ≠ .override v)
    (hstay : event ≠ .withdraw call) :
    (c'.Awaited call since ∧ outcome = .nothing) ∨
      (event = .resume call ∧ ∃ online, outcome = .answer online ∧
        c'.Settled online (now + p.ttl online)) := by
  obtain ⟨⟨stage, others, hcalls, hsent, hwaiting⟩, hexpired⟩ := h
  have hnone : c.current? now = none :=
    current?_eq_none_iff.2 fun r hr => Nat.le_trans (hexpired r hr) hnow
  cases hstep with
  | hit _ hcached | find _ hcached =>
    rw [hnone] at hcached
    cases hcached
  | join =>
    refine .inl ⟨⟨⟨stage, others ++ [⟨_, .waiting⟩], by rw [hcalls]; rfl, hsent, ?_⟩, hexpired⟩,
      rfl⟩
    intro x hx
    rcases List.mem_append.1 hx with hx | hx
    · exact hwaiting x hx
    · rw [List.mem_singleton.1 hx]
  | send hcalls' =>
    rw [hcalls] at hcalls'
    cases hcalls'
    cases hsent
  | store hcalls' =>
    rw [hcalls] at hcalls'
    cases hcalls'
    exact .inr ⟨rfl, _, rfl, rfl, hwaiting⟩
  | discard hcalls' hover hstale =>
    rw [hcalls] at hcalls'
    cases hcalls'
    rw [hover.sentIn] at hsent
    cases hsent
    exact absurd rfl hstale
  | reply success hcalls' =>
    rw [hcalls] at hcalls'
    cases hcalls'
    exact .inl ⟨⟨⟨_, _, rfl, hsent, hwaiting⟩, hexpired⟩, rfl⟩
  | @withdraw other =>
    have hne : call ≠ other := fun heq => hstay (by rw [heq])
    refine .inl ⟨⟨⟨stage, others.filter (·.id != other), by simp [hcalls, hne], hsent, ?_⟩,
      hexpired⟩, rfl⟩
    exact fun x hx => hwaiting x (List.mem_filter.1 hx).1
  | override online => exact absurd rfl (hother online)

/-- A call that begins meanwhile waits. -/
theorem Awaited.enter {since other : Nat} (h : c.Awaited call since) (hnow : since ≤ now)
    (hstep : Step p now limit c (.enter other) outcome c') :
    outcome = .nothing ∧ c'.Awaited call since ∧ (∃ x ∈ c'.calls, x.id = other) ∧ other ≠ call := by
  rcases h.step hnow hstep nofun nofun with ⟨hout, hnothing⟩ | ⟨hevent, -⟩
  · refine ⟨hnothing, hout, ?_⟩
    obtain ⟨⟨stage, others, hcalls, -⟩, -⟩ := h
    have hmem : ⟨call, stage⟩ ∈ c.calls := by
      rw [hcalls]
      exact List.mem_cons_self
    cases hstep with
    | hit => cases hnothing
    | join hfresh =>
      exact ⟨⟨_, List.mem_append_right _ List.mem_cons_self, rfl⟩, (hfresh _ hmem).symm⟩
  · cases hevent

/-- While a result stands, everyone returns it. -/
theorem Settled.step {online : Bool} {expires : Nat} (h : c.Settled online expires)
    (hnow : now < expires) (hstep : Step p now limit c event outcome c')
    (hother : ∀ v, event ≠ .override v) :
    c'.Settled online expires ∧ outcome ≠ .ping ∧ ∀ v, outcome = .answer v → v = online := by
  obtain ⟨hcached, hwaiting⟩ := h
  have hcurrent := current?_eq_some_iff.2 ⟨expires, hcached, hnow⟩
  have atGate : ∀ {first others}, c.calls = first :: others → first.stage = .waiting := by
    intro first others hcalls
    exact hwaiting first (hcalls ▸ List.mem_cons_self)
  have behind : ∀ {first others}, c.calls = first :: others →
      ∀ x ∈ others, x.stage = .waiting := by
    intro first others hcalls x hx
    exact hwaiting x (hcalls ▸ List.mem_cons_of_mem _ hx)
  cases hstep with
  | hit _ hfound =>
    rw [hcurrent] at hfound
    cases hfound
    exact ⟨⟨hcached, hwaiting⟩, nofun, fun v hv => by cases hv; rfl⟩
  | find hcalls hfound =>
    rw [hcurrent] at hfound
    cases hfound
    exact ⟨⟨hcached, behind hcalls⟩, nofun, fun v hv => by cases hv; rfl⟩
  | join _ hfound | send _ hfound =>
    rw [hcurrent] at hfound
    cases hfound
  | store hcalls hover =>
    have hstage : _ = CallStage.waiting := atGate hcalls
    dsimp only at hstage
    rw [hstage] at hover
    cases hover
  | discard hcalls hover =>
    have hstage : _ = CallStage.waiting := atGate hcalls
    dsimp only at hstage
    rw [hstage] at hover
    cases hover
  | reply success hcalls => cases atGate hcalls
  | withdraw =>
    exact ⟨⟨hcached, fun x hx => hwaiting x (List.mem_filter.1 hx).1⟩, nofun, nofun⟩
  | override v => exact absurd rfl (hother v)

end LivenessCell

namespace Network

open LivenessCell (PingOut Awaited Settled)

variable {n : Network} {o : Happening} {os : List Happening} {s s' : NodeState} {e : Endpoint}
  {a b : Nat}

/-- The clock moves only when no call has a step to take. -/
def Patient (n : Network) (os : List Happening) : Prop :=
  ∀ o ∈ os, ∀ millis, o.event = .elapse millis → n.Idle o.before

theorem Run.not_always_of_sends (h : n.Run .initial os o.before) (ho : n.Takes o)
    (hsends : o.Sends e a) : n.alwaysOnline e = false := by
  apply Bool.eq_false_iff.2
  intro he
  exact ((ho.step_of_resume hsends.1).calls_eq_nil (h.calls_eq_nil he) nofun).2 hsends.2

/-- After a call has sent a ping, none other is sent before the call is over. -/
theorem Run.pingOut (h : n.Run s os s') (hs : (s.cell e.canonical).PingOut a)
    (hpending : Pending e a os) : (s'.cell e.canonical).PingOut a := by
  refine h.keeps_cell (P := fun c => c.PingOut a) hs ?_
  intro o ho event hat _ hstep hbefore
  rcases (hbefore.step hstep).2 with hout | ⟨rfl, v, hv⟩ | rfl
  · exact hout
  · exact absurd (.inl ⟨v, .inr hat, hv⟩) (hpending o ho)
  · exact absurd (.inr hat) (hpending o ho)

/-- A ping that was sent without an override since then, and by a call that is not over. -/
theorem Run.awaited (h : n.Run s os s') {since : Nat}
    (hs : (s.cell e.canonical).Awaited a since) (hsince : since ≤ s.now)
    (hpending : Pending e a os) (hother : ∀ o ∈ os, ∀ v, ¬ o.Overrides e v) :
    (s'.cell e.canonical).Awaited a since := by
  refine (h.keeps (P := fun s => since ≤ s.now ∧ (s.cell e.canonical).Awaited a since)
    ⟨hsince, hs⟩ ?_).2
  rintro o ho htakes ⟨hnow, hbefore⟩
  refine ⟨Nat.le_trans hnow htakes.now_le, ?_⟩
  cases hat : o.at? e with
  | none =>
    rw [show o.after.cell e.canonical = o.cellBefore e from htakes.cell_eq hat]
    exact hbefore
  | some event =>
    rcases htakes.step hat with ⟨-, -, -, hsame⟩ | ⟨-, hstep⟩
    · rw [show o.after.cell e.canonical = o.cellBefore e from hsame]
      exact hbefore
    · rcases hbefore.step hnow hstep (fun v hv => hother o ho v (by rw [hv] at hat; exact hat))
        (fun hw => hpending o ho (.inr (by rw [hw] at hat; exact hat))) with
      ⟨hout, -⟩ | ⟨rfl, v, hv, -⟩
      · exact hout
      · exact absurd (.inl ⟨v, .inr hat, hv⟩) (hpending o ho)

/-! ## Behind the ping -/

/-- In a queue where a result stands, the call at the gate returns it. -/
theorem step?_of_settled {online : Bool} {expires : Nat} {first : PendingCall}
    {others : List PendingCall} (h : (s.cell e.canonical).Settled online expires)
    (hnow : s.now < expires) (hcalls : (s.cell e.canonical).calls = first :: others) :
    n.step? s (.cell e (.resume first.id)) =
      some (s.setCell e.canonical { s.cell e.canonical with calls := others }, .answer online) := by
  obtain ⟨id, stage⟩ := first
  have hstage : stage = .waiting := h.waiting ⟨id, stage⟩ (hcalls ▸ List.mem_cons_self)
  subst hstage
  have hfind : LivenessCell.Step n.policy s.now (n.pingTimeout e) (s.cell e.canonical)
      (.resume id) (.answer online) { s.cell e.canonical with calls := others } :=
    .find hcalls (LivenessCell.current?_eq_some_iff.2 ⟨expires, h.cached, hnow⟩)
  rw [step?_resume, hfind.step?_eq]
  rfl

/-- Everyone in such a queue can return the result before anything else happens. -/
theorem exists_run_of_settled {online : Bool} {expires : Nat} {calls : List PendingCall}
    (h : (s.cell e.canonical).Settled online expires) (hnow : s.now < expires)
    (hcalls : (s.cell e.canonical).calls = calls) (hb : ∃ x ∈ calls, x.id = b) :
    ∃ more s', n.Run s more s' ∧ (∀ o ∈ more, ∃ call, o.at? e = some (.resume call)) ∧
      Returns e b online more := by
  induction calls generalizing s with
  | nil =>
    obtain ⟨x, hx, -⟩ := hb
    cases hx
  | cons first others ih =>
    let s₁ := s.setCell e.canonical { s.cell e.canonical with calls := others }
    let o : Happening := ⟨s, .cell e (.resume first.id), .answer online, s₁⟩
    have htakes : n.Takes o := step?_of_settled h hnow hcalls
    have hat : o.at? e = some (.resume first.id) := by simp [o, Happening.at?, sameEndpoint]
    by_cases hfirst : first.id = b
    · subst hfirst
      refine ⟨[o], s₁, .cons htakes (.nil _), ?_, ?_⟩
      · intro x hx
        rw [List.mem_singleton.1 hx]
        exact ⟨_, hat⟩
      · have hnone : Pending e first.id [] := List.forall_mem_nil _
        exact hnone.returns ⟨.inr hat, rfl⟩
    · have hcell : s₁.cell e.canonical = { s.cell e.canonical with calls := others } :=
        NodeState.cell_setCell _ _ _
      have hsettled : (s₁.cell e.canonical).Settled online expires := by
        rw [hcell]
        exact ⟨h.cached, fun x hx => h.waiting x (hcalls ▸ List.mem_cons_of_mem _ hx)⟩
      have hrest : ∃ x ∈ others, x.id = b := by
        obtain ⟨x, hx, hid⟩ := hb
        rcases List.mem_cons.1 hx with rfl | hx
        · exact absurd hid hfirst
        · exact ⟨x, hx, hid⟩
      obtain ⟨more, s', hmore, hresumes, v, hreturns, hanswers⟩ :=
        ih hsettled hnow (by rw [hcell]) hrest
      have hends : ¬ o.Ends e b :=
        Happening.not_ends (by simp [hat]) (by simp [hat, hfirst]) (by simp [hat])
      refine ⟨o :: more, s', .cons htakes hmore, ?_, v, ?_, hanswers⟩
      · intro x hx
        rcases List.mem_cons.1 hx with rfl | hx
        · exact ⟨_, hat⟩
        · exact hresumes x hx
      · rw [List.find?_cons_of_neg (by simpa using hends)]
        exact hreturns

/-- What has become of the ping of a call after some happenings: it is out, or its result was
returned and stands where everyone waits. -/
inductive Followed (e : Endpoint) (a since : Nat) (os : List Happening) (s : NodeState) : Prop
  | out (hpending : Pending e a os) (hsince : since ≤ s.now)
      (hawaited : (s.cell e.canonical).Awaited a since)
  | settled {online : Bool} {expires : Nat} (hreturns : Returns e a online os)
      (hnow : s.now < expires) (hsettled : (s.cell e.canonical).Settled online expires)

theorem ttl_pos {p : LivenessPolicy} (hon : 0 < p.onlineTtl) (hoff : 0 < p.offlineTtl) (v : Bool) :
    0 < p.ttl v := by
  cases v
  · exact hoff
  · exact hon

/-- As long as somebody waits behind it, the clock does not move past the result of a ping. -/
theorem Followed.step {since : Nat} (h : Followed e a since os o.before) (htakes : n.Takes o)
    (he : n.alwaysOnline e = false) (httl : ∀ v, 0 < n.policy.ttl v)
    (hidle : ∀ millis, o.event = .elapse millis → n.Idle o.before)
    (hb : (o.cellBefore e).calls ≠ []) (hother : ∀ v, ¬ o.Overrides e v) (hstay : ¬ o.GivesUp e a) :
    Followed e a since (os ++ [o]) o.after := by
  cases hat : o.at? e with
  | none =>
    have hcell : o.after.cell e.canonical = o.before.cell e.canonical := htakes.cell_eq hat
    have hends : ¬ o.Ends e a :=
      Happening.not_ends (by simp [hat]) (by simp [hat]) (by simp [hat])
    cases h with
    | out hpending hsince hawaited =>
      refine .out (pending_append_iff.2 ⟨hpending, ?_⟩) (Nat.le_trans hsince htakes.now_le) ?_
      · intro x hx
        rw [List.mem_singleton.1 hx]
        exact hends
      · rw [hcell]
        exact hawaited
    | settled hreturns hnow hsettled =>
      refine .settled (hreturns.append _) ?_ (by rw [hcell]; exact hsettled)
      rw [htakes.now_eq]
      · exact hnow
      · intro millis hmillis
        obtain ⟨first, others, hcalls⟩ := List.exists_cons_of_ne_nil hb
        have hresume := step?_of_settled (n := n) hsettled hnow hcalls
        rw [hidle millis hmillis e first.id] at hresume
        cases hresume
  | some event =>
    have hstep := htakes.step_of_not_always he hat
    have hnowEq : o.after.now = o.now := by
      obtain ⟨e', -, hevent⟩ := event_eq_of_at? hat
      exact htakes.now_eq fun millis hmillis => by rw [hevent] at hmillis; cases hmillis
    have hother : ∀ v, event ≠ .override v := by
      rintro v rfl
      exact hother v hat
    have hstay : event ≠ .withdraw a := by
      rintro rfl
      exact hstay hat
    cases h with
    | out hpending hsince hawaited =>
      rcases hawaited.step hsince hstep hother hstay with ⟨hout, hnothing⟩ | ⟨rfl, v, hv, hsettled⟩
      · refine .out (pending_append_iff.2 ⟨hpending, ?_⟩) (hnowEq ▸ hsince) hout
        intro x hx
        rw [List.mem_singleton.1 hx]
        rintro (⟨v, -, hanswer⟩ | hgives)
        · rw [hnothing] at hanswer
          cases hanswer
        · rw [Happening.GivesUp, hat] at hgives
          exact hstay (Option.some.inj hgives)
      · refine .settled (hpending.returns ⟨.inr hat, hv⟩) ?_ hsettled
        rw [hnowEq]
        exact Nat.lt_add_of_pos_right (httl v)
    | settled hreturns hnow hsettled =>
      exact .settled (hreturns.append _) (hnowEq ▸ hnow) (hsettled.step hnow hstep hother).1

/-- Behind a ping no other is sent, and everyone but the call that sent it returns what that call
has returned. -/
theorem Followed.answers {since : Nat} (h : Followed e a since os o.before) (htakes : n.Takes o)
    (he : n.alwaysOnline e = false) {event : LivenessEvent} (hat : o.at? e = some event)
    (hother : ¬ ∃ v, event = .override v) (hstay : event ≠ .withdraw a) :
    o.outcome ≠ .ping ∧ ∀ v, o.outcome = .answer v → event ≠ .resume a → Returns e a v os := by
  have hstep := htakes.step_of_not_always he hat
  have hother : ∀ v, event ≠ .override v := fun v hv => hother ⟨v, hv⟩
  cases h with
  | out hpending hsince hawaited =>
    rcases hawaited.step hsince hstep hother hstay with ⟨-, hnothing⟩ | ⟨hevent, w, hw, -⟩
    · rw [hnothing]
      exact ⟨nofun, nofun⟩
    · rw [hw]
      exact ⟨nofun, fun _ _ hne => absurd hevent hne⟩
  | settled hreturns hnow hsettled =>
    obtain ⟨-, hping, hanswer⟩ := hsettled.step hnow hstep hother
    refine ⟨hping, fun v hv _ => ?_⟩
    rw [hanswer v hv]
    exact hreturns

/-- Whoever waits behind a ping, as long as nothing is said about the endpoint meanwhile. -/
theorem Run.followed {since : Nat} {q : NodeState} (h : n.Run q os s)
    (hawaited : (q.cell e.canonical).Awaited a since) (hsince : since ≤ q.now)
    (hq : ∃ x ∈ (q.cell e.canonical).calls, x.id = b) (he : n.alwaysOnline e = false)
    (httl : ∀ v, 0 < n.policy.ttl v) (hpatient : n.Patient os)
    (hother : ∀ o ∈ os, ∀ v, ¬ o.Overrides e v) (hstay : ∀ o ∈ os, ¬ o.GivesUp e a)
    (hpending : Pending e b os) :
    Followed e a since os s ∧ ∃ x ∈ (s.cell e.canonical).calls, x.id = b := by
  refine h.induction (P := fun os s => Followed e a since os s ∧
    ∃ x ∈ (s.cell e.canonical).calls, x.id = b) ⟨.out nofun hsince hawaited, hq⟩ ?_
  rintro past o ho htakes ⟨hfollowed, hwaits⟩
  have hne : (o.cellBefore e).calls ≠ [] := by
    obtain ⟨x, hx, -⟩ := hwaits
    exact List.ne_nil_of_mem hx
  refine ⟨hfollowed.step htakes he httl (hpatient o ho) hne (hother o ho) (hstay o ho), ?_⟩
  show ∃ x ∈ (o.cellAfter e).calls, x.id = b
  cases hat : o.at? e with
  | none =>
    rw [htakes.cell_eq hat]
    exact hwaits
  | some event =>
    rcases (htakes.step_of_not_always he hat).under_way hwaits with hstill | ⟨rfl, v, hv⟩ | rfl
    · exact hstill
    · exact absurd (.inl ⟨v, .inr hat, hv⟩) (hpending o ho)
    · exact absurd (.inr hat) (hpending o ho)

/-- For every endpoint, in every run of a node: between two pings the first is over.

If both results stand for some time and the clock moves only when no call has a step to take, then
every call `b` that begins while the ping of a call `a` is out waits, sends no ping of its own and
returns what `a` returns, unless there is an override of the endpoint or `a` is given up.  When `a`
has returned, `b` can return before anything else happens. -/
theorem pings_shared (n : Network) {os : List Happening} {s : NodeState}
    (hrun : n.Run .initial os s) (e : Endpoint) :
    (∀ before p between q after a b, os = before ++ p :: (between ++ q :: after) →
        p.Sends e a → q.Sends e b → ∃ o ∈ between, o.Ends e a) ∧
      (0 < n.policy.onlineTtl → 0 < n.policy.offlineTtl → n.Patient os →
        ∀ before p between q after a b, os = before ++ p :: (between ++ q :: after) →
          p.Sends e a → Pending e a between → q.Begins e b →
          (∀ o ∈ between ++ after, ∀ v, ¬ o.Overrides e v) → (∀ o ∈ after, ¬ o.GivesUp e a) →
          q.outcome = .nothing ∧
            (∀ earlier o later, after = earlier ++ o :: later → Pending e b earlier →
              ¬ o.Sends e b) ∧
            (∀ v, Returns e b v after → Returns e a v after) ∧
            ∀ v, Returns e a v after → Pending e b after →
              ∃ more s', n.Run s more s' ∧ (∀ o ∈ more, ∃ call, o.at? e = some (.resume call)) ∧
                Returns e b v more) := by
  constructor
  · rintro before p between q after a b rfl hp hq
    obtain ⟨-, hptakes, hrest⟩ := hrun.split
    obtain ⟨hbetween, hqtakes, -⟩ := hrest.split
    by_contra hnone
    have hpending : Pending e a between := fun o ho hends => hnone ⟨o, ho, hends⟩
    have hstep := hptakes.step_of_resume hp.1
    rw [hp.2] at hstep
    have hout := hbetween.pingOut hstep.pingOut hpending
    exact (hout.step (hqtakes.step_of_resume hq.1)).1 hq.2
  · rintro hon hoff hpatient before p between q after a b rfl hp hbetweenPending hq hother hstay
    obtain ⟨hbefore, hptakes, hrest⟩ := hrun.split
    obtain ⟨hbetween, hqtakes, hafter⟩ := hrest.split
    have he := hbefore.not_always_of_sends hptakes hp
    have hsend := hptakes.step_of_resume hp.1
    rw [hp.2] at hsend
    have hawaited := hbetween.awaited (hsend.awaited (hbefore.queued e)) hptakes.now_le
      hbetweenPending fun o ho => hother o (List.mem_append_left _ ho)
    have hsince : p.now ≤ q.now := Nat.le_trans hptakes.now_le hbetween.now_le
    obtain ⟨hnothing, hawaited, hwaits, hne⟩ :=
      hawaited.enter hsince (hqtakes.step_of_not_always he hq)
    -- what has become of the ping at any moment before `b` is over
    have followed : ∀ {earlier later s'}, after = earlier ++ later → n.Run q.after earlier s' →
        Pending e b earlier →
        Followed e a p.now earlier s' ∧ ∃ x ∈ (s'.cell e.canonical).calls, x.id = b := by
      rintro earlier later s' rfl hearlier hb
      refine hearlier.followed hawaited (Nat.le_trans hsince hqtakes.now_le) hwaits he
        (ttl_pos hon hoff) ?_ ?_ ?_ hb
      · exact fun o ho => hpatient o (by simp [ho])
      · exact fun o ho => hother o (by simp [ho])
      · exact fun o ho => hstay o (List.mem_append_left _ ho)
    refine ⟨hnothing, ?_, ?_, ?_⟩
    · rintro earlier o later rfl hb ⟨hat, hping⟩
      obtain ⟨hearlier, ho, -⟩ := hafter.split
      obtain ⟨hfollowed, -⟩ := followed rfl hearlier hb
      exact (hfollowed.answers ho he hat nofun nofun).1 hping
    · intro v hreturns
      obtain ⟨earlier, o, later, rfl, hb, hat, hanswer⟩ := hreturns.exists_split
      obtain ⟨hearlier, ho, -⟩ := hafter.split
      obtain ⟨hfollowed, -⟩ := followed rfl hearlier hb
      rcases hat with hat | hat
      · exact ((hfollowed.answers ho he hat nofun nofun).2 v hanswer nofun).append _
      · refine ((hfollowed.answers ho he hat nofun nofun).2 v hanswer ?_).append _
        rintro ⟨⟩
        exact hne rfl
    · intro v hreturns hb
      obtain ⟨hfollowed, hstill⟩ := followed (List.append_nil after).symm hafter hb
      cases hfollowed with
      | out hpending => exact absurd hpending hreturns.not_pending
      | settled hreturns' hnow hsettled =>
        rw [hreturns.unique hreturns']
        exact exists_run_of_settled hsettled hnow rfl hstill

/-- A call begins a while after another one has sent its ping; the ping is answered, and both calls
return. -/
theorem pings_shared_of_two_calls :
    let n : Network := ⟨.localNode, none, [], {}⟩
    let e := Endpoint.broadcast
    ∃ before p between q after s, n.Run .initial (before ++ p :: (between ++ q :: after)) s ∧
      n.Patient (before ++ p :: (between ++ q :: after)) ∧ (∃ o ∈ between, o.now < o.after.now) ∧
      p.Sends e 0 ∧ q.Begins e 1 ∧ Returns e 1 true after ∧ Returns e 0 true after := by
  intro n e
  let state (now : Nat) (cached : Option CachedResult) (calls : List PendingCall) : NodeState :=
    ⟨now, [(e.canonical, ⟨cached, 0, calls⟩)]⟩
  let s₁ := state 0 none [⟨0, .waiting⟩]
  let s₂ := state 0 none [⟨0, .pinging 0 2000⟩]
  let s₃ := state 100 none [⟨0, .pinging 0 2000⟩]
  let s₄ := state 100 none [⟨0, .pinging 0 2000⟩, ⟨1, .waiting⟩]
  let s₅ := state 100 none [⟨0, .replied 0 true⟩, ⟨1, .waiting⟩]
  let s₆ := state 100 (some ⟨true, 15100⟩) [⟨1, .waiting⟩]
  let s₇ := state 100 (some ⟨true, 15100⟩) []
  let enter : Happening := ⟨.initial, .cell e (.enter 0), .nothing, s₁⟩
  let p : Happening := ⟨s₁, .cell e (.resume 0), .ping, s₂⟩
  let wait : Happening := ⟨s₂, .elapse 100, .nothing, s₃⟩
  let q : Happening := ⟨s₃, .cell e (.enter 1), .nothing, s₄⟩
  let shared : List Happening := [⟨s₄, .cell e (.reply 0 true), .nothing, s₅⟩,
    ⟨s₅, .cell e (.resume 0), .answer true, s₆⟩]
  let last : Happening := ⟨s₆, .cell e (.resume 1), .answer true, s₇⟩
  have hrun : n.Run .initial ([enter] ++ p :: ([wait] ++ q :: (shared ++ [last]))) s₇ := by
    decide +kernel
  -- while the ping is out, its call has no step to take before the deadline
  have hidle : n.Idle s₂ := by
    intro e' call
    rw [step?_resume]
    by_cases hsame : e.canonical = e'.canonical
    · simp [s₂, state, NodeState.cell, hsame, LivenessCell.step?, LivenessCell.resume?]
    · simp [s₂, state, NodeState.cell, hsame, LivenessCell.step?, LivenessCell.empty]
  have hpatient : n.Patient ([enter] ++ p :: ([wait] ++ q :: (shared ++ [last]))) := by
    intro o ho millis hmillis
    simp only [List.mem_append, List.mem_cons, List.not_mem_nil, or_false, shared] at ho
    rcases ho with rfl | rfl | rfl | rfl | (rfl | rfl) | rfl
    case inr.inr.inl => exact hidle
    all_goals cases hmillis
  have hshared := (pings_shared n hrun e).2 (by decide) (by decide) hpatient [enter] p [wait] q
    (shared ++ [last]) 0 1 rfl (by decide +kernel) (by decide +kernel) (by decide +kernel)
    (by decide +kernel) (by decide +kernel)
  have hb : Returns e 1 true (shared ++ [last]) :=
    Pending.returns (by decide +kernel) (by decide +kernel)
  exact ⟨[enter], p, [wait], q, shared ++ [last], s₇, hrun, hpatient, by decide +kernel,
    by decide +kernel, by decide +kernel, hb, hshared.2.2.1 true hb⟩

end Network

end Dxb
