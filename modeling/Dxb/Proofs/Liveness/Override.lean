import Dxb.Proofs.Liveness.History

/-!
# What an override is good for

An override starts a generation, so every ping that is out when it comes was sent in an earlier one
(`SentBefore`).  Such a ping is never stored, and while the result of the override stands no other
is sent.  Until the next override of an endpoint, and as long as the result stands, every call for
the endpoint therefore returns what the override said, wherever the call was when it came
(`override_stands`).
-/

namespace Dxb

open Target (sameEndpoint)

namespace LivenessCell

variable {p : LivenessPolicy} {now limit : Nat} {c c' : LivenessCell} {event : LivenessEvent}
  {outcome : LivenessOutcome} {who : Nat → Prop} {bound : Nat}

/-- Of some calls, those whose ping is out have sent it before a generation. -/
def SentBefore (c : LivenessCell) (who : Nat → Prop) (bound : Nat) : Prop :=
  ∀ x ∈ c.calls, who x.id → ∀ g, x.stage.sentIn? = some g → g < bound

theorem SentBefore.mono (h : c.SentBefore who bound) {later : Nat} (hle : bound ≤ later) :
    c.SentBefore who later :=
  fun x hx hw g hg => Nat.lt_of_lt_of_le (h x hx hw g hg) hle

theorem Step.generation_le (h : Step p now limit c event outcome c') :
    c.generation ≤ c'.generation := by
  cases h with
  | override online => exact Nat.le_succ _
  | _ => exact Nat.le_refl _

/-- A ping that is sent is sent in the present generation. -/
theorem Step.sentBefore (h : Step p now limit c event outcome c') (hc : c.SentBefore who bound)
    (hsend : ∀ call, event = .resume call → outcome = .ping → who call → c.generation < bound) :
    c'.SentBefore who bound := by
  -- the calls behind the gate stay as they were
  have tail : ∀ {first others}, c.calls = first :: others → ∀ x ∈ others, who x.id →
      ∀ g, x.stage.sentIn? = some g → g < bound := by
    intro first others hcalls x hx
    exact hc x (hcalls ▸ List.mem_cons_of_mem _ hx)
  intro x hx hw g hg
  cases h with
  | hit => exact hc x hx hw g hg
  | join =>
    rcases List.mem_append.1 hx with hx | hx
    · exact hc x hx hw g hg
    · rw [List.mem_singleton.1 hx] at hg
      cases hg
  | find hcalls => exact tail hcalls x hx hw g hg
  | send hcalls =>
    rcases List.mem_cons.1 hx with rfl | hx
    · cases hg
      exact hsend _ rfl rfl hw
    · exact tail hcalls x hx hw g hg
  | store hcalls => exact tail hcalls x hx hw g hg
  | discard hcalls => exact tail hcalls x hx hw g hg
  | @reply call generation deadline others success hcalls =>
    rcases List.mem_cons.1 hx with rfl | hx
    · have hfirst : ⟨call, .pinging generation deadline⟩ ∈ c.calls := by
        rw [hcalls]
        exact List.mem_cons_self
      exact hc _ hfirst hw g hg
    · exact tail hcalls x hx hw g hg
  | withdraw => exact hc x (List.mem_filter.1 hx).1 hw g hg
  | override => exact hc x hx hw g hg

/-- The cache changes by an override or when a call goes on. -/
theorem Step.changes (h : Step p now limit c event outcome c') (hne : c'.cached ≠ c.cached) :
    (∃ online, event = .override online) ∨ ∃ call, event = .resume call := by
  cases h with
  | store => exact .inr ⟨_, rfl⟩
  | override online => exact .inl ⟨online, rfl⟩
  | _ => exact absurd rfl hne

/-- The result of a ping that was sent in an earlier generation is not stored. -/
theorem Step.cached_of_resume {call : Nat} (h : Step p now limit c (.resume call) outcome c')
    (hc : c.SentBefore (· = call) c.generation) : c'.cached = c.cached := by
  cases h with
  | store hcalls hover =>
    exact absurd (hc _ (hcalls ▸ List.mem_cons_self) rfl _ hover.sentIn) (Nat.lt_irrefl _)
  | _ => rfl

/-- What an override said stands, and every ping that is out is older. -/
structure Overridden (c : LivenessCell) (online : Bool) (expires : Nat) : Prop where
  cached : c.cached = some ⟨online, expires⟩
  stale : c.SentBefore (fun _ => True) c.generation

namespace Overridden

variable {online : Bool} {expires : Nat}

theorem current? (h : c.Overridden online expires) (hnow : now < expires) :
    c.current? now = some online :=
  current?_eq_some_iff.2 ⟨expires, h.cached, hnow⟩

/-- While it stands, calls answer with it, and none sends a ping. -/
theorem answers (h : c.Overridden online expires) (hnow : now < expires)
    (hstep : Step p now limit c event outcome c') :
    (∀ v, outcome = .answer v → v = online) ∧ outcome ≠ .ping := by
  have hcurrent := h.current? hnow
  cases hstep with
  | hit _ hcached | find _ hcached =>
    rw [hcurrent] at hcached
    cases hcached
    exact ⟨fun v hv => by cases hv; rfl, nofun⟩
  | send _ hcached =>
    rw [hcurrent] at hcached
    cases hcached
  | store hcalls hover =>
    have hlt := h.stale _ (hcalls ▸ List.mem_cons_self) trivial _ hover.sentIn
    exact absurd hlt (Nat.lt_irrefl _)
  | discard =>
    rw [hcurrent]
    exact ⟨fun v hv => by cases hv; rfl, nofun⟩
  | join | reply | withdraw | override => exact ⟨nofun, nofun⟩

theorem step (h : c.Overridden online expires) (hnow : now < expires)
    (hstep : Step p now limit c event outcome c') (hother : ∀ v, event ≠ .override v) :
    c'.Overridden online expires := by
  have hsend := (h.answers hnow hstep).2
  have hstale := hstep.sentBefore h.stale fun _ _ hping => absurd hping hsend
  refine ⟨?_, hstale.mono hstep.generation_le⟩
  cases hstep with
  | store hcalls hover =>
    have hlt := h.stale _ (hcalls ▸ List.mem_cons_self) trivial _ hover.sentIn
    exact absurd hlt (Nat.lt_irrefl _)
  | override v => exact absurd rfl (hother v)
  | _ => exact h.cached

end Overridden

/-- An override makes every ping that is out older than itself. -/
theorem Step.overridden {online : Bool} (h : Step p now limit c (.override online) outcome c')
    (hc : c.SentBefore (fun _ => True) (c.generation + 1)) :
    c'.Overridden online (now + p.ttl online) := by
  cases h
  exact ⟨rfl, hc⟩

end LivenessCell

namespace Network

variable {n : Network} {o : Happening} {os : List Happening} {s s' : NodeState} {e : Endpoint}

/-- No ping is sent in a generation to come. -/
theorem Run.sentBefore (h : n.Run .initial os s) (e : Endpoint) :
    (s.cell e.canonical).SentBefore (fun _ => True) ((s.cell e.canonical).generation + 1) := by
  refine h.keeps_cell (P := fun c => c.SentBefore (fun _ => True) (c.generation + 1)) nofun ?_
  intro o _ event _ _ hstep hbefore
  have hkept := hstep.sentBefore hbefore fun _ _ _ _ => Nat.lt_succ_self _
  exact hkept.mono (Nat.succ_le_succ hstep.generation_le)

/-- Until the next override of an endpoint, and as long as the result of the last one stands. -/
theorem Run.overridden {online : Bool} {expires : Nat} (h : n.Run s os s')
    (hs : (s.cell e.canonical).Overridden online expires) (hnow : s'.now < expires)
    (hother : ∀ o ∈ os, ∀ v, ¬ o.Overrides e v) :
    (s'.cell e.canonical).Overridden online expires := by
  refine h.keeps_cell (P := fun c => c.Overridden online expires) hs ?_
  intro o ho event hat _ hstep hbefore
  refine hbefore.step (Nat.lt_of_le_of_lt (h.now_le_of_mem ho) hnow) hstep ?_
  rintro v rfl
  exact hother o ho v hat

/-- A node, an endpoint that is neither the node nor its main node, and an override of it in the
course of a run.

Whatever happens behind the override before another one of the endpoint and while the result stands:
a call that returns then returns what the override said, and no ping is sent to the endpoint.  And
whatever happens behind it at all: the cache changes only by another override, or when a call goes
on that has sent its ping since the override.

The endpoint stays held all the while, as in every run; if it is let go, the result is forgotten
with everything else that was known of it. -/
theorem override_stands (n : Network) (e : Endpoint) (he : n.alwaysOnline e = false) (online : Bool)
    {past future : List Happening} {o : Happening} {s : NodeState}
    (hrun : n.Run .initial (past ++ o :: future) s) (ho : o.Overrides e online) :
    (∀ window x rest, future = window ++ x :: rest → (∀ y ∈ window, ∀ v, ¬ y.Overrides e v) →
        x.now < o.now + n.policy.ttl online →
        (∀ call v, x.Answers e call v → v = online) ∧ ∀ call, ¬ x.Sends e call) ∧
      ∀ window x rest, future = window ++ x :: rest →
        (x.cellAfter e).cached ≠ (x.cellBefore e).cached →
        (∃ v, x.Overrides e v) ∨
          ∃ call, x.at? e = some (.resume call) ∧ ∃ ping ∈ window, ping.Sends e call := by
  obtain ⟨hpast, htakes, hfuture⟩ := hrun.split
  have hstep := htakes.step_of_not_always he ho
  have hover := hstep.overridden (hpast.sentBefore e)
  constructor
  · rintro window x rest rfl hother hnow
    obtain ⟨hwindow, hx, -⟩ := hfuture.split
    have hstands : (x.cellBefore e).Overridden online (o.now + n.policy.ttl online) :=
      hwindow.overridden hover hnow hother
    constructor
    · rintro call v ⟨hat | hat, hanswer⟩
      · exact (hstands.answers hnow (hx.step_of_not_always he hat)).1 v hanswer
      · exact (hstands.answers hnow (hx.step_of_not_always he hat)).1 v hanswer
    · rintro call ⟨hat, hping⟩
      exact (hstands.answers hnow (hx.step_of_not_always he hat)).2 hping
  · rintro window x rest rfl hne
    obtain ⟨hwindow, hx, -⟩ := hfuture.split
    cases hat : x.at? e with
    | none => exact absurd (congrArg LivenessCell.cached (hx.cell_eq hat)) hne
    | some event =>
      rcases (hx.step_of_not_always he hat).changes hne with ⟨v, rfl⟩ | ⟨call, rfl⟩
      · exact .inl ⟨v, hat⟩
      refine .inr ⟨call, rfl, ?_⟩
      by_contra hnone
      -- then the ping of the call, if it has one, is older than the override
      have hold : ∃ generation, (x.cellBefore e).SentBefore (· = call) generation ∧
          generation ≤ (x.cellBefore e).generation := by
        refine hwindow.keeps_cell (e := e) (P := fun c => ∃ generation,
          c.SentBefore (· = call) generation ∧ generation ≤ c.generation)
          ⟨_, fun y hy _ => hover.stale y hy trivial, Nat.le_refl _⟩ ?_
        rintro y hy event hy' - hcell ⟨generation, hsent, hle⟩
        refine ⟨generation, hcell.sentBefore hsent ?_, Nat.le_trans hle hcell.generation_le⟩
        rintro call' rfl hping rfl
        exact absurd ⟨y, hy, hy', hping⟩ hnone
      obtain ⟨generation, hsent, hle⟩ := hold
      exact hne ((hx.step_of_resume hat).cached_of_resume (hsent.mono hle))

/-- An endpoint is said to be offline while a call waits for its ping.  The ping is answered, and
yet the call returns what the override said. -/
theorem override_stands_of_ping_out :
    let n : Network := ⟨.localNode, none, [], {}⟩
    let e := Endpoint.broadcast
    ∃ past o window x s, n.alwaysOnline e = false ∧
      n.Run .initial (past ++ o :: (window ++ [x])) s ∧ (∃ ping ∈ past, ping.Sends e 0) ∧
      o.Overrides e false ∧ (∃ reply ∈ window, reply.at? e = some (.reply 0 true)) ∧
      (∃ v, x.Answers e 0 v) ∧ ∀ v, x.Answers e 0 v → v = false := by
  intro n e
  let state (now : Nat) (cached : Option CachedResult) (generation : Nat)
      (calls : List PendingCall) : NodeState := ⟨now, [(e.canonical, ⟨cached, generation, calls⟩)]⟩
  let s₁ := state 0 none 0 [⟨0, .waiting⟩]
  let s₂ := state 0 none 0 [⟨0, .pinging 0 2000⟩]
  let s₃ := state 500 none 0 [⟨0, .pinging 0 2000⟩]
  let s₄ := state 500 (some ⟨false, 3500⟩) 1 [⟨0, .pinging 0 2000⟩]
  let s₅ := state 500 (some ⟨false, 3500⟩) 1 [⟨0, .replied 0 true⟩]
  let s₆ := state 500 (some ⟨false, 3500⟩) 1 []
  let past : List Happening := [⟨.initial, .cell e (.enter 0), .nothing, s₁⟩,
    ⟨s₁, .cell e (.resume 0), .ping, s₂⟩, ⟨s₂, .elapse 500, .nothing, s₃⟩]
  let o : Happening := ⟨s₃, .cell e (.override false), .nothing, s₄⟩
  let reply : Happening := ⟨s₄, .cell e (.reply 0 true), .nothing, s₅⟩
  let x : Happening := ⟨s₅, .cell e (.resume 0), .answer false, s₆⟩
  have he : n.alwaysOnline e = false := by decide +kernel
  have hrun : n.Run .initial (past ++ o :: ([reply] ++ [x])) s₆ := by decide +kernel
  have ho : o.Overrides e false := by decide +kernel
  obtain ⟨hanswers, -⟩ := (override_stands n e he false hrun ho).1 [reply] x [] rfl
    (by decide +kernel) (by decide +kernel)
  exact ⟨past, o, [reply], x, s₆, he, hrun, by decide +kernel, ho, by decide +kernel,
    ⟨false, by decide +kernel⟩, hanswers 0⟩

end Network

end Dxb
