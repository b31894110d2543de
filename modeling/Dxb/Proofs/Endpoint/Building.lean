import Dxb.Proofs.Endpoint.Ownership

/-!
# Handing out endpoints

What the table hands out is owned by whoever asked for it, and everything else is owned as before.

    t.Owned held → (t.build e).2.Owned (.endpoint (t.build e).1 :: held)              (Owned.build)
    t.Owned held → (t.cover r).2.Owned (.wildcard (t.cover r).1 :: held)              (Owned.cover)

An endpoint that is alive is handed out again by its text, whatever was asked for
(`Owned.endpoint_build`, `Owned.build_eq_of_canonical`); a wildcard is about the very endpoint it
was asked for with (`Owned.value_cover`).
-/

namespace Dxb.Interning

variable {t : Interning} {held : List Handle}

/-! ## Interning -/

theorem intern_of_find?_eq_some {e : Endpoint} {r : EndpointRef}
    (h : t.find? e.canonical = some r) (main : Option (Ref Endpoint)) :
    t.intern e main = (r, t.share (.endpoint r)) := by
  simp [intern, h]

theorem intern_of_find?_eq_none {e : Endpoint} (h : t.find? e.canonical = none)
    (main : Option (Ref Endpoint)) :
    t.intern e main = ((t.endpoints.insert e.canonical ⟨e, main⟩).1,
      { t with endpoints := (t.endpoints.insert e.canonical ⟨e, main⟩).2 }) := by
  simp [intern, h]

theorem Owned.find?_intern (ht : t.Owned held) (e : Endpoint) (main : Option (Ref Endpoint))
    (key : String) :
    (t.intern e main).2.find? key =
      if key = e.canonical then some (t.intern e main).1 else t.find? key := by
  cases h : t.find? e.canonical with
  | some r =>
    rw [intern_of_find?_eq_some h]
    obtain ⟨⟨ho, -⟩, -⟩ := ht.find?_eq_some_iff.1 h
    show (t.endpoints.share r.place).find? key = _
    rw [Registry.find?_share ho]
    split
    · rename_i hk
      rw [hk]
      exact h
    · rfl
  | none =>
    rw [intern_of_find?_eq_none h]
    exact Registry.find?_insert ht.endpoints_exact _ _ _

theorem Owned.internMain (ht : t.Owned held) {e : Endpoint} (he : e.isMain = true) :
    (t.intern e none).2.Owned (.endpoint (t.intern e none).1 :: held) := by
  cases h : t.find? e.canonical with
  | some r =>
    rw [intern_of_find?_eq_some h]
    exact ht.share (ht.find?_eq_some_iff.1 h).1
  | none =>
    rw [intern_of_find?_eq_none h]
    exact Owned.insertEndpoint (i := ⟨e, none⟩) ht h he

theorem Owned.canonical_intern (ht : t.Owned held) (e : Endpoint) (main : Option (Ref Endpoint)) :
    (t.intern e main).1.canonical = e.canonical := by
  cases h : t.find? e.canonical with
  | some r =>
    rw [intern_of_find?_eq_some h]
    exact (ht.find?_eq_some_iff.1 h).2
  | none =>
    rw [intern_of_find?_eq_none h]
    rfl

/-- An endpoint without an instance owns no main endpoint. -/
theorem Owned.eq_ofMain (ht : t.Owned held) {r : EndpointRef} (hr : t.Live (.endpoint r))
    (hmain : r.endpoint.isMain = true) : r = .ofMain ⟨r.place, r.endpoint⟩ := by
  have hk := (ht.interned hr.2).2
  unfold MainKnown at hk
  split at hk
  · rename_i h
    obtain ⟨place, e, main⟩ := r
    cases h
    rfl
  · rw [show r.value.endpoint.isMain = true from hmain] at hk
    cases hk.1

/-! ## Building -/

theorem build_of_isMain {e : Endpoint} (he : e.isMain = true) : t.build e = t.intern e none := by
  simp [build, he]

/-- The handle to the main endpoint is given back if the endpoint is alive. -/
theorem build_of_find?_eq_some {e : Endpoint} (he : e.isMain = false) {r : EndpointRef}
    (h : (t.intern e.main none).2.find? e.canonical = some r) :
    t.build e = (r, ((t.intern e.main none).2.share (.endpoint r)).dropEndpoint
      (t.intern e.main none).1) := by
  have hknown : (t.intern e.main none).2.isInterned e.canonical = true := by
    show ((t.intern e.main none).2.find? e.canonical).isSome = true
    rw [h]
    rfl
  simp [build, he, hknown, intern_of_find?_eq_some h]

theorem build_of_find?_eq_none {e : Endpoint} (he : e.isMain = false)
    (h : (t.intern e.main none).2.find? e.canonical = none) :
    t.build e = (t.intern e.main none).2.intern e
      (some ⟨(t.intern e.main none).1.place, (t.intern e.main none).1.endpoint⟩) := by
  have hknown : (t.intern e.main none).2.isInterned e.canonical = false := by
    show ((t.intern e.main none).2.find? e.canonical).isSome = false
    rw [h]
    rfl
  simp [build, he, hknown]

theorem Owned.find?_intern_main (ht : t.Owned held) {e : Endpoint} (he : e.isMain = false) :
    (t.intern e.main none).2.find? e.canonical = t.find? e.canonical := by
  rw [ht.find?_intern, if_neg]
  intro h
  rw [Endpoint.canonical_main] at h
  rw [Endpoint.isMain_of_canonical_eq h] at he
  cases he

theorem Owned.build (ht : t.Owned held) (e : Endpoint) :
    (t.build e).2.Owned (.endpoint (t.build e).1 :: held) := by
  cases he : e.isMain with
  | true =>
    rw [build_of_isMain he]
    exact ht.internMain he
  | false =>
    have hm := ht.internMain (e := e.main) rfl
    cases h : (t.intern e.main none).2.find? e.canonical with
    | some r =>
      rw [build_of_find?_eq_some he h]
      have hs := hm.share (hm.find?_eq_some_iff.1 h).1
      exact (hs.perm (List.Perm.swap _ _ _)).dropEndpoint
    | none =>
      rw [build_of_find?_eq_none he h, intern_of_find?_eq_none h]
      have hc := ht.canonical_intern e.main none
      rw [Endpoint.canonical_main] at hc
      have hlive := hm.live List.mem_cons_self
      have hmain := hm.eq_ofMain hlive (Endpoint.isMain_of_canonical_eq hc)
      refine Owned.insertEndpoint
        (i := ⟨e, some ⟨(t.intern e.main none).1.place, (t.intern e.main none).1.endpoint⟩⟩)
        ?_ h ⟨he, hc, ?_⟩
      · show (t.intern e.main none).2.Owned (.endpoint (.ofMain _) :: held)
        rwa [← hmain]
      · rw [← hmain]
        exact hlive.2

/-- The endpoint that is handed out is the one that was alive with the same canonical text, and
otherwise the one that was asked for. -/
theorem Owned.endpoint_build (ht : t.Owned held) (e : Endpoint) :
    (t.build e).1.endpoint = ((t.find? e.canonical).map Ref.endpoint).getD e := by
  cases he : e.isMain with
  | true =>
    rw [build_of_isMain he]
    cases h : t.find? e.canonical with
    | some r =>
      rw [intern_of_find?_eq_some h]
      rfl
    | none =>
      rw [intern_of_find?_eq_none h]
      rfl
  | false =>
    cases h : t.find? e.canonical with
    | some r =>
      rw [← ht.find?_intern_main he] at h
      rw [build_of_find?_eq_some he h]
      rfl
    | none =>
      rw [← ht.find?_intern_main he] at h
      rw [build_of_find?_eq_none he h, intern_of_find?_eq_none h]
      rfl

theorem Owned.canonical_build (ht : t.Owned held) (e : Endpoint) :
    (t.build e).1.canonical = e.canonical := by
  unfold Ref.canonical
  rw [ht.endpoint_build]
  cases h : t.find? e.canonical with
  | some r => exact (ht.find?_eq_some_iff.1 h).2
  | none => rfl

/-- Whoever asks for the text of an endpoint that is alive gets another handle to it. -/
theorem Owned.build_eq_of_canonical (ht : t.Owned held) {r : EndpointRef}
    (hr : t.Live (.endpoint r)) {e : Endpoint} (h : e.canonical = r.canonical) :
    (t.build e).1 = r := by
  have hfind : t.find? e.canonical = some r := ht.find?_eq_some_iff.2 ⟨hr, h.symm⟩
  cases he : e.isMain with
  | true => rw [build_of_isMain he, intern_of_find?_eq_some hfind]
  | false => rw [build_of_find?_eq_some he ((ht.find?_intern_main he).trans hfind)]

/-- Handing something out keeps what is alive. -/
theorem Owned.live_build (ht : t.Owned held) {r : EndpointRef} (hr : t.Live (.endpoint r))
    (e : Endpoint) : (t.build e).2.Live (.endpoint r) := by
  obtain ⟨x, hx, hsubject⟩ := ht.live_iff.1 hr
  exact (ht.build e).live_iff.2 ⟨x, List.mem_cons_of_mem _ hx, hsubject⟩

/-! ## Wildcards -/

theorem cover_of_find?_eq_some {r : EndpointRef} {w : WildcardRef}
    (h : t.wildcards.find? r.canonical = some w) :
    t.cover r = (w, t.share (.wildcard w)) := by
  simp [cover, h]

theorem cover_of_find?_eq_none {r : EndpointRef} (h : t.wildcards.find? r.canonical = none) :
    t.cover r = ((t.wildcards.insert r.canonical r).1,
      { t.share (.endpoint r) with wildcards := (t.wildcards.insert r.canonical r).2 }) := by
  simp [cover, h]

theorem Owned.cover (ht : t.Owned held) {r : EndpointRef} (hr : t.Live (.endpoint r)) :
    (t.cover r).2.Owned (.wildcard (t.cover r).1 :: held) := by
  cases h : t.wildcards.find? r.canonical with
  | some w =>
    rw [cover_of_find?_eq_some h]
    exact ht.share (ht.find?_wildcard_eq_some_iff.1 h).1
  | none =>
    rw [cover_of_find?_eq_none h]
    exact (ht.share hr).insertWildcard h

/-- A wildcard is about the very endpoint it was asked for with. -/
theorem Owned.value_cover (ht : t.Owned held) {r : EndpointRef} (hr : t.Live (.endpoint r)) :
    (t.cover r).1.value = r := by
  cases h : t.wildcards.find? r.canonical with
  | some w =>
    rw [cover_of_find?_eq_some h]
    obtain ⟨hw, hc⟩ := ht.find?_wildcard_eq_some_iff.1 h
    exact ht.eq_of_canonical (ht.live_covered hw) hr hc
  | none =>
    rw [cover_of_find?_eq_none h]
    rfl

/-! ## Requests -/

theorem Owned.acquireTarget (ht : t.Owned held) (target : Target) :
    (t.acquireTarget target).2.Owned ((t.acquireTarget target).1 :: held) := by
  cases target with
  | endpoint e => exact ht.build e
  | wildcard e =>
    have hb := ht.build e
    have hc := hb.cover (hb.live List.mem_cons_self)
    exact (hc.perm (List.Perm.swap _ _ _)).dropEndpoint

/-- The form of the target, and the endpoint that `build` hands out. -/
theorem Owned.target_acquireTarget (ht : t.Owned held) (target : Target) :
    (t.acquireTarget target).1.target = Target.ofEndpoint target.isWildcard
      (((t.find? target.text).map Ref.endpoint).getD target.subject) := by
  cases target with
  | endpoint e =>
    show Target.endpoint (t.build e).1.endpoint = _
    rw [ht.endpoint_build]
    rfl
  | wildcard e =>
    have hb := ht.build e
    show Target.wildcard ((t.build e).2.cover (t.build e).1).1.value.endpoint = _
    rw [hb.value_cover (hb.live List.mem_cons_self), ht.endpoint_build]
    rfl

/-- A request for another handle names something alive. -/
def Grantable (t : Interning) : HandleRequest → Prop
  | .target _ => True
  | .copy h => t.Live h
  | .cover r => t.Live (.endpoint r)

theorem Owned.grant (ht : t.Owned held) {request : HandleRequest} (hr : t.Grantable request) :
    (t.grant request).2.Owned ((t.grant request).1 :: held) := by
  cases request with
  | target target => exact ht.acquireTarget target
  | copy h => exact ht.share hr
  | cover r => exact ht.cover hr

end Dxb.Interning
