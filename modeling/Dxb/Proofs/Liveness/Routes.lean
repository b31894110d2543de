import Mathlib.Data.List.Basic
import Dxb.Liveness.Trace

/-!
# Traces along a route

A trace goes from stop to stop, whether or not these are where it was sent, until one of them ends
it (`TraceRequest.along`).  Its hops are the stops it has come through, in their order, and nothing
else decides where it is sent and where it ends (`along_route`).  It ends at the first stop that is
the origin and not the first of all, so it need not have been at the destination by then: it has
been there exactly if the stop before the end sent it back (`arrived_iff_sent_back`).
-/

namespace Dxb.TraceRequest

open Target (sameEndpoint)

/-- A stop with `k` stops before it ends a trace: it is the origin, and the trace comes back to it
or is for the origin itself. -/
def Ends (origin destination : Endpoint) (k : Nat) (stop : TraceHop) : Prop :=
  sameEndpoint stop.endpoint origin ∧ (0 < k ∨ sameEndpoint destination origin)

instance (origin destination : Endpoint) (k : Nat) : DecidablePred (Ends origin destination k) :=
  fun _ => inferInstanceAs (Decidable (_ ∧ _))

/-- Some hop was at an endpoint. -/
def Visited (e : Endpoint) (hops : List TraceHop) : Prop :=
  ∃ hop ∈ hops, sameEndpoint hop.endpoint e

instance (e : Endpoint) : DecidablePred (Visited e) := fun hops =>
  inferInstanceAs (Decidable (∃ hop ∈ hops, sameEndpoint hop.endpoint e = true))

variable {origin destination : Endpoint} {route hops : List TraceHop} {stop : TraceHop}

/-! ## One stop -/

theorem sameEndpoint_iff {a b : Endpoint} :
    sameEndpoint a b = true ↔ a.canonical = b.canonical := beq_iff_eq

theorem visited_concat_iff {e : Endpoint} :
    Visited e (hops ++ [stop]) ↔ Visited e hops ∨ sameEndpoint stop.endpoint e := by
  simp only [Visited, List.mem_append, List.mem_singleton, or_and_right, exists_or,
    exists_eq_left]

theorem reached_iff (r : TraceRequest) : r.reached = true ↔ Visited r.destination r.hops :=
  List.any_eq_true

theorem endsAt_iff (r : TraceRequest) (stop : TraceHop) :
    r.endsAt stop.endpoint = true ↔ Ends r.origin r.destination r.hops.length stop := by
  simp only [endsAt, Ends, Bool.and_eq_true, Bool.or_eq_true, Bool.not_eq_true',
    List.isEmpty_eq_false_iff, List.length_pos_iff, sameEndpoint_iff]
  constructor
  · rintro ⟨horigin, hends⟩
    exact ⟨horigin.symm, by rwa [horigin]⟩
  · rintro ⟨horigin, hends⟩
    exact ⟨horigin.symm, by rwa [horigin]⟩

theorem step_eq_done_iff (r : TraceRequest) (stop : TraceHop) :
    r.step stop.endpoint stop.interface = .done hops ↔
      Ends r.origin r.destination r.hops.length stop ∧ hops = r.hops ++ [stop] := by
  rw [← endsAt_iff, step]
  by_cases hends : r.endsAt stop.endpoint = true
  · rw [if_pos hends, and_iff_right hends, TraceStep.done.injEq, eq_comm]
    rfl
  · rw [if_neg hends]
    constructor
    · intro h
      cases h
    · exact fun h => absurd h.1 hends

theorem step_eq_forward_iff (r r' : TraceRequest) (stop : TraceHop) (next : Endpoint) :
    r.step stop.endpoint stop.interface = .forward next r' ↔
      ¬ Ends r.origin r.destination r.hops.length stop ∧
        next = (if Visited r.destination (r.hops ++ [stop]) then r.origin else r.destination) ∧
        r' = ⟨r.origin, r.destination, r.hops ++ [stop]⟩ := by
  have hreached := reached_iff (r.record stop.endpoint stop.interface)
  rw [← endsAt_iff, step]
  by_cases hends : r.endsAt stop.endpoint = true
  · rw [if_pos hends]
    constructor
    · intro h
      cases h
    · exact fun h => absurd hends h.1
  · rw [if_neg hends, and_iff_right hends, TraceStep.forward.injEq, eq_comm, eq_comm (b := r')]
    simp only [hreached]
    rfl

/-! ## Many stops -/

theorem along_cons_of_ends {r : TraceRequest} (h : Ends r.origin r.destination r.hops.length stop)
    (route : List TraceHop) : r.along (stop :: route) = .error (r.hops ++ [stop]) := by
  rw [along, (step_eq_done_iff r stop).2 ⟨h, rfl⟩]

theorem along_cons_of_not_ends {r : TraceRequest}
    (h : ¬ Ends r.origin r.destination r.hops.length stop) (route : List TraceHop) :
    r.along (stop :: route) =
      along ⟨r.origin, r.destination, r.hops ++ [stop]⟩ route := by
  rw [along, (step_eq_forward_iff r _ stop _).2 ⟨h, rfl, rfl⟩]

/-- No stop of a route ends a trace that has `n` hops before it. -/
def Passes (origin destination : Endpoint) (n : Nat) (route : List TraceHop) : Prop :=
  ∀ k stop, route[k]? = some stop → ¬ Ends origin destination (n + k) stop

theorem passes_nil {n : Nat} : Passes origin destination n [] := by
  rintro k stop ⟨⟩

theorem passes_cons_iff {n : Nat} : Passes origin destination n (stop :: route) ↔
    ¬ Ends origin destination n stop ∧ Passes origin destination (n + 1) route := by
  constructor
  · intro h
    refine ⟨h 0 stop rfl, fun k later hk => ?_⟩
    rw [Nat.add_assoc, Nat.add_comm 1]
    exact h (k + 1) later hk
  · rintro ⟨hfirst, hrest⟩ k later hk
    cases k with
    | zero =>
      cases hk
      exact hfirst
    | succ k =>
      rw [Nat.add_comm k, ← Nat.add_assoc]
      exact hrest k later hk

theorem passes_or_ends (origin destination : Endpoint) (n : Nat) (route : List TraceHop) :
    Passes origin destination n route ∨ ∃ before stop after, route = before ++ stop :: after ∧
      Passes origin destination n before ∧
      Ends origin destination (n + before.length) stop := by
  induction route generalizing n with
  | nil => exact .inl passes_nil
  | cons first route ih =>
    by_cases hends : Ends origin destination n first
    · exact .inr ⟨[], first, route, rfl, passes_nil, hends⟩
    rcases ih (n + 1) with hpasses | ⟨before, stop, after, hroute, hpasses, hlater⟩
    · exact .inl (passes_cons_iff.2 ⟨hends, hpasses⟩)
    · refine .inr ⟨first :: before, stop, after, ?_, passes_cons_iff.2 ⟨hends, hpasses⟩, ?_⟩
      · rw [hroute, List.cons_append]
      · rwa [List.length_cons, Nat.add_comm before.length, ← Nat.add_assoc]

theorem along_append (r : TraceRequest) (route more : List TraceHop) :
    r.along (route ++ more) = r.along route >>= fun r => r.along more := by
  induction route generalizing r with
  | nil => rfl
  | cons stop route ih =>
    rw [List.cons_append, along, along]
    cases r.step stop.endpoint stop.interface with
    | done hops => rfl
    | forward next r => exact ih r

/-- Stops that do not end a trace are recorded and left behind. -/
theorem along_of_passes {r : TraceRequest} (h : Passes r.origin r.destination r.hops.length route) :
    r.along route = .ok ⟨r.origin, r.destination, r.hops ++ route⟩ := by
  induction route generalizing r with
  | nil => rw [along, List.append_nil]
  | cons stop route ih =>
    obtain ⟨hstop, hroute⟩ := passes_cons_iff.1 h
    rw [along_cons_of_not_ends hstop, ih (by simpa using hroute), List.append_assoc,
      List.singleton_append]

theorem along_of_ends {r : TraceRequest} {before : List TraceHop}
    (hbefore : Passes r.origin r.destination r.hops.length before)
    (hstop : Ends r.origin r.destination (r.hops.length + before.length) stop)
    (after : List TraceHop) :
    r.along (before ++ stop :: after) = .error (r.hops ++ before ++ [stop]) := by
  have hhere := along_cons_of_ends (r := ⟨r.origin, r.destination, r.hops ++ before⟩)
    (by rwa [List.length_append]) after
  rw [along_append, along_of_passes hbefore]
  exact hhere

/-- A request is under way behind a route exactly if no stop has ended it, and has come through all
of them then. -/
theorem along_eq_ok_iff {r r' : TraceRequest} :
    r.along route = .ok r' ↔ Passes r.origin r.destination r.hops.length route ∧
      r' = ⟨r.origin, r.destination, r.hops ++ route⟩ := by
  constructor
  · intro h
    rcases passes_or_ends r.origin r.destination r.hops.length route with
      hpasses | ⟨before, stop, after, rfl, hbefore, hstop⟩
    · rw [along_of_passes hpasses] at h
      exact ⟨hpasses, (Except.ok.inj h).symm⟩
    · rw [along_of_ends hbefore hstop] at h
      cases h
  · rintro ⟨hpasses, rfl⟩
    exact along_of_passes hpasses

/-- A request is done at the first stop that ends it, and has come through all until there. -/
theorem along_eq_error_iff {r : TraceRequest} :
    r.along route = .error hops ↔ ∃ before stop after, route = before ++ stop :: after ∧
      Passes r.origin r.destination r.hops.length before ∧
      Ends r.origin r.destination (r.hops.length + before.length) stop ∧
      hops = r.hops ++ before ++ [stop] := by
  constructor
  · intro h
    rcases passes_or_ends r.origin r.destination r.hops.length route with
      hpasses | ⟨before, stop, after, rfl, hbefore, hstop⟩
    · rw [along_of_passes hpasses] at h
      cases h
    · rw [along_of_ends hbefore hstop] at h
      exact ⟨before, stop, after, rfl, hbefore, hstop, (Except.error.inj h).symm⟩
  · rintro ⟨before, stop, after, rfl, hbefore, hstop, rfl⟩
    exact along_of_ends hbefore hstop after

/-! ## Legs -/

/-- The stops between one node that a request is sent to and the next one. -/
def leg (relays : List Endpoint) (next : Endpoint) : List TraceHop :=
  relays.map (fun relay => ⟨relay, "relay"⟩) ++ [⟨next, "remote"⟩]

theorem travel_succ (relays : List Endpoint) (legs : Nat) (next : Endpoint) (r : TraceRequest) :
    travel relays (legs + 1) next r = match r.along (leg relays next) with
      | .error hops => some hops
      | .ok r => travel relays legs (if r.reached then r.origin else r.destination) r := by
  have hrelays : r.along (relays.map fun relay => ⟨relay, "relay"⟩) = r.through "relay" relays := rfl
  rw [travel, leg, along_append, hrelays]
  cases r.through "relay" relays with
  | error hops => rfl
  | ok q =>
    show _ = match q.along [⟨next, "remote"⟩] with
      | .error hops => some hops
      | .ok r => travel relays legs (if r.reached then r.origin else r.destination) r
    rw [along]
    dsimp only
    cases hstep : q.step next "remote" with
    | done hops => rfl
    | forward further r =>
      obtain ⟨-, hfurther, rfl⟩ := (step_eq_forward_iff q r ⟨next, "remote"⟩ further).1 hstep
      simp only [hfurther, along, reached_iff]

/-- A request that has been somewhere is done at its origin. -/
theorem travel_to_origin (relays : List Endpoint) (legs : Nat) {r : TraceRequest}
    (h : r.hops ≠ []) : ∃ hops, travel relays (legs + 1) r.origin r = some hops := by
  rw [travel_succ]
  cases hleg : r.along (leg relays r.origin) with
  | error hops => exact ⟨hops, rfl⟩
  | ok q =>
    have hpos : 0 < r.hops.length + relays.length :=
      Nat.add_pos_left (List.length_pos_iff.2 h) _
    have hends : Ends r.origin r.destination (r.hops.length + relays.length) ⟨r.origin, "remote"⟩ :=
      ⟨sameEndpoint_iff.2 rfl, .inl hpos⟩
    exact absurd hends ((along_eq_ok_iff.1 hleg).1 relays.length _ (by simp [leg]))

/-- A request that a node has handled is done after two legs. -/
theorem travel_two (relays : List Endpoint) (r : TraceRequest) (h : r.hops ≠ []) :
    ∃ hops, travel relays 2 (if r.reached then r.origin else r.destination) r = some hops := by
  by_cases hreached : r.reached = true
  · rw [if_pos hreached]
    exact travel_to_origin relays 1 h
  rw [if_neg hreached, travel_succ]
  cases hleg : r.along (leg relays r.destination) with
  | error hops => exact ⟨hops, rfl⟩
  | ok q =>
    obtain ⟨-, rfl⟩ := along_eq_ok_iff.1 hleg
    have hvisited : Visited r.destination (r.hops ++ leg relays r.destination) :=
      ⟨⟨r.destination, "remote"⟩, by simp [leg], sameEndpoint_iff.2 rfl⟩
    have hreached' := (reached_iff ⟨r.origin, r.destination, r.hops ++ leg relays r.destination⟩).2
      hvisited
    dsimp only
    rw [if_pos hreached']
    exact travel_to_origin relays 0 (r := ⟨r.origin, r.destination, _⟩) (by simp [h])

/-! ## Traces from their origin -/

/-- A trace along any route, from no hops at all.  As long as no stop has ended it, its hops are the
stops it has come through, and it is from its origin to its destination as before.  A stop ends it
exactly if it is the origin, and the trace comes back to it or is for the origin itself; the hops are
then the stops until there.  Any other stop sends it to the destination as long as none of the stops
has been that, and to the origin from then on. -/
theorem along_route (origin destination : Endpoint) (route : List TraceHop) :
    (∀ r, (start origin destination).along route = .ok r ↔
      Passes origin destination 0 route ∧ r = ⟨origin, destination, route⟩) ∧
    (∀ hops, (start origin destination).along route = .error hops ↔
      ∃ before stop after, route = before ++ stop :: after ∧ Passes origin destination 0 before ∧
        Ends origin destination before.length stop ∧ hops = before ++ [stop]) ∧
    ∀ r, (start origin destination).along route = .ok r → ∀ stop,
      (∀ hops, r.step stop.endpoint stop.interface = .done hops ↔
        Ends origin destination route.length stop ∧ hops = route ++ [stop]) ∧
      ∀ next r', r.step stop.endpoint stop.interface = .forward next r' ↔
        ¬ Ends origin destination route.length stop ∧
          next = (if Visited destination (route ++ [stop]) then origin else destination) ∧
          r' = ⟨origin, destination, route ++ [stop]⟩ := by
  refine ⟨fun r => along_eq_ok_iff, fun hops => ?_, fun r h stop => ?_⟩
  · have hdone : (start origin destination).along route = .error hops ↔ _ := along_eq_error_iff
    simpa [start] using hdone
  · obtain ⟨-, rfl⟩ := along_eq_ok_iff.1 h
    exact ⟨fun hops => step_eq_done_iff _ stop, fun next r' => step_eq_forward_iff _ r' stop next⟩

/-- A trace that has been at its destination goes back through a relay, or ends at the origin. -/
theorem along_route_on_return :
    let origin := Endpoint.localNode
    let destination := Endpoint.broadcast
    let relay : TraceHop := ⟨{ Endpoint.localNode with inst := 1 }, "relay"⟩
    let route : List TraceHop := [⟨origin, "local"⟩, relay, ⟨destination, "remote"⟩]
    let r : TraceRequest := ⟨origin, destination, route⟩
    (start origin destination).along route = .ok r ∧
      r.step relay.endpoint relay.interface =
        .forward origin ⟨origin, destination, route ++ [relay]⟩ ∧
      r.step origin "remote" = .done (route ++ [⟨origin, "remote"⟩]) := by
  intro origin destination relay route r
  have hunder : (start origin destination).along route = .ok r := by decide +kernel
  have hstep := (along_route origin destination route).2.2 r hunder
  have hrelay := ((hstep relay).2 origin _).2 ⟨by decide +kernel, by decide +kernel, rfl⟩
  have horigin := ((hstep ⟨origin, "remote"⟩).1 _).2 ⟨by decide +kernel, rfl⟩
  exact ⟨hunder, hrelay, horigin⟩

/-- A stop that does not end a trace sends it back exactly if the trace has been at the destination,
unless that is the origin itself. -/
theorem sent_back_iff_visited {before : List TraceHop} {last : TraceHop}
    (hlast : ¬ Ends origin destination before.length last)
    (hother : ¬ sameEndpoint destination origin) :
    step ⟨origin, destination, before⟩ last.endpoint last.interface =
        .forward origin ⟨origin, destination, before ++ [last]⟩ ↔
      Visited destination (before ++ [last]) := by
  rw [step_eq_forward_iff, and_iff_right hlast, and_iff_left rfl]
  constructor
  · intro hnext
    by_contra hvisited
    rw [if_neg hvisited] at hnext
    exact hother (sameEndpoint_iff.2 (congrArg Endpoint.canonical hnext.symm))
  · exact fun hvisited => (if_pos hvisited).symm

/-- A trace that is done has been at its destination exactly if that is its origin, or if the stop
before the end sent it back to the origin. -/
theorem arrived_iff_sent_back (h : (start origin destination).along route = .error hops) :
    Visited destination hops ↔ sameEndpoint destination origin ∨
      ∃ before last stop, hops = before ++ [last, stop] ∧
        step ⟨origin, destination, before⟩ last.endpoint last.interface =
          .forward origin ⟨origin, destination, before ++ [last]⟩ := by
  obtain ⟨before, stop, -, -, hpasses, ⟨hstop, hends⟩, rfl⟩ := along_eq_error_iff.1 h
  have hhops : (start origin destination).hops ++ before = before := List.nil_append before
  have hstop' := sameEndpoint_iff.1 hstop
  rw [hhops, visited_concat_iff]
  by_cases hself : sameEndpoint destination origin = true
  · have hat : sameEndpoint stop.endpoint destination = true :=
      sameEndpoint_iff.2 (hstop'.trans (sameEndpoint_iff.1 hself).symm)
    exact iff_of_true (.inr hat) (.inl hself)
  have hother : ¬ sameEndpoint stop.endpoint destination = true := fun hat =>
    hself (sameEndpoint_iff.2 ((sameEndpoint_iff.1 hat).symm.trans hstop'))
  rw [or_iff_left hother, or_iff_right hself]
  -- a trace for another endpoint does not end at its first stop, so there is one before the last
  have hpos : 0 < before.length := by simpa [start, hself] using hends
  obtain ⟨earlier, last, rfl⟩ := (List.eq_nil_or_concat' before).resolve_left
    (List.ne_nil_of_length_pos hpos)
  have hlast : ¬ Ends origin destination earlier.length last := by
    simpa [start] using hpasses earlier.length last (by simp)
  rw [← sent_back_iff_visited hlast hself]
  constructor
  · exact fun hback => ⟨earlier, last, stop, by simp, hback⟩
  · rintro ⟨earlier', last', stop', hsplit, hback⟩
    rw [List.append_assoc] at hsplit
    obtain ⟨rfl, hends⟩ := List.append_inj' hsplit rfl
    cases hends
    exact hback

/-- A trace that goes through a relay, to its destination and back. -/
theorem arrived_through_relay :
    let origin := Endpoint.localNode
    let destination := Endpoint.broadcast
    let relay : TraceHop := ⟨{ Endpoint.localNode with inst := 1 }, "relay"⟩
    let route : List TraceHop := [⟨origin, "local"⟩, relay, ⟨destination, "remote"⟩, relay,
      ⟨origin, "remote"⟩]
    (start origin destination).along route = .error route ∧ Visited destination route := by
  intro origin destination relay route
  have hdone : (start origin destination).along route = .error route := by decide +kernel
  refine ⟨hdone, (arrived_iff_sent_back hdone).2 (.inr ⟨route.take 3, _, _, rfl, ?_⟩)⟩
  decide +kernel

/-- A trace that comes through its origin on the way to the destination is done there, and has not
been at the destination. -/
theorem done_on_the_way :
    let origin : Endpoint := ⟨.person ⟨"o", by decide, by simp, by decide⟩, 0⟩
    let relay : Endpoint := ⟨.institution ⟨"r", by decide, by simp, by decide⟩, 0⟩
    let destination : Endpoint := ⟨.person ⟨"d", by decide, by simp, by decide⟩, 0⟩
    let route : List TraceHop := [⟨origin, "local"⟩, ⟨relay, "relay"⟩, ⟨origin, "local"⟩]
    (start origin destination).along route = .error route ∧ ¬ Visited destination route := by
  decide +kernel

end Dxb.TraceRequest
