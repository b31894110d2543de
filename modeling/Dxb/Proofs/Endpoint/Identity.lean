import Dxb.Proofs.Endpoint.Histories

/-!
# Which endpoint is handed out

The table is asked for a canonical text, so whoever asks for an endpoint gets a twin of it as long
as the twin is in use, and otherwise what was asked for (`reported_iff_no_twin`).  A person named
`@local` is taken for the endpoint itself once that was used (`local_for_person_record`).
-/

namespace Dxb

theorem Handle.subject_target (x : Handle) : x.target.subject = x.subject.endpoint := by
  cases x <;> rfl

theorem Target.subject_ofEndpoint (wild : Bool) (e : Endpoint) :
    (Target.ofEndpoint wild e).subject = e := by
  cases wild <;> rfl

theorem Target.isWildcard_ofEndpoint (wild : Bool) (e : Endpoint) :
    (Target.ofEndpoint wild e).isWildcard = wild := by
  cases wild <;> rfl

namespace Interning

variable {t : Interning} {held : List Handle}

theorem Owned.subject_acquireTarget (ht : t.Owned held) (target : Target) :
    (t.acquireTarget target).1.subject.endpoint =
      ((t.find? target.text).map Ref.endpoint).getD target.subject := by
  rw [← Handle.subject_target, ht.target_acquireTarget, Target.subject_ofEndpoint]

theorem Owned.isWildcard_acquireTarget (ht : t.Owned held) (target : Target) :
    (t.acquireTarget target).1.isWildcard = target.isWildcard := by
  show (t.acquireTarget target).1.target.isWildcard = _
  rw [ht.target_acquireTarget, Target.isWildcard_ofEndpoint]

/-- What is handed out is what was asked for, or else a twin of it that is alive. -/
theorem Owned.subject_acquireTarget_eq_iff (ht : t.Owned held) (target : Target) :
    (t.acquireTarget target).1.subject.endpoint = target.subject ↔
      ∀ i ∈ t.endpoints.alive, ¬ i.endpoint.Twins target.subject := by
  rw [ht.subject_acquireTarget]
  constructor
  · intro he i hi htwin
    obtain ⟨place, ho, hv⟩ := Registry.mem_alive_iff.1 hi
    have hlive : t.Live (.endpoint ⟨place, i⟩) := ⟨ho, hv⟩
    have hc : i.endpoint.canonical = target.text := Endpoint.canonical_eq_iff.2 (.inr htwin)
    rw [ht.find?_eq_some_iff.2 ⟨hlive, hc⟩] at he
    have heq : i.endpoint = target.subject := he
    rw [heq] at htwin
    exact htwin.1.kind_ne rfl
  · intro hno
    cases h : t.find? target.text with
    | none => rfl
    | some r =>
      obtain ⟨hlive, hc⟩ := ht.find?_eq_some_iff.1 h
      rcases Endpoint.canonical_eq_iff.1 hc with heq | htwin
      · exact heq
      · have hm := Registry.mem_alive_iff.2 ⟨r.place, hlive.1, hlive.2⟩
        exact absurd htwin (hno _ hm)

end Interning

namespace Holdings

/-- After any steps, whoever asks for an endpoint gets a handle that reports the kind, the name and
the instance asked for exactly when no twin of it is in use. -/
theorem reported_iff_no_twin (steps : List HoldingStep) (slot : Option String) (m : Making)
    (t : Target) (ht : (empty.run steps).request m = .ok (.target t)) :
    ∃ x, ((empty.run steps).make slot m).1 = .ok x ∧ x.isWildcard = t.isWildcard ∧
      ((x.subject.endpoint.kind = t.subject.kind ∧
          x.subject.endpoint.name.slot = t.subject.name.slot ∧
          x.subject.endpoint.inst = t.subject.inst) ↔
        ∀ i ∈ (empty.run steps).table.endpoints.alive, ¬ i.endpoint.Twins t.subject) := by
  have ho := (valid_run steps).owned
  generalize empty.run steps = h at ht ho ⊢
  refine ⟨(h.table.acquireTarget t).1, ?_, ho.isWildcard_acquireTarget t, ?_⟩
  · unfold make
    rw [ht]
    cases slot <;> rfl
  · rw [← ho.subject_acquireTarget_eq_iff]
    constructor
    · rintro ⟨hkind, -, -⟩
      rw [ho.subject_acquireTarget] at hkind ⊢
      cases hf : h.table.find? t.text with
      | none => rfl
      | some r =>
        rw [hf] at hkind
        rcases Endpoint.canonical_eq_iff.1 (ho.find?_eq_some_iff.1 hf).2 with heq | htwin
        · exact heq
        · exact absurd hkind htwin.1.kind_ne
    · intro heq
      rw [heq]
      exact ⟨rfl, rfl, rfl⟩

/-- The institution `x` in use, and a person `+x` asked for. -/
theorem institution_for_person :
    ∃ x, ((empty.run [.make (some "a") (.parse "@+x")]).make none (.ofName .person "+x" .main)).1 =
      .ok x ∧ x.subject.endpoint.kind = .institution := by
  have hrequest : (empty.run [.make (some "a") (.parse "@+x")]).request
      (.ofName .person "+x" .main) =
        .ok (.target (.endpoint ⟨.person ⟨"+x", by decide, by simp, by decide⟩, 0⟩)) := by
    decide +kernel
  obtain ⟨x, hx, -, -⟩ := reported_iff_no_twin [.make (some "a") (.parse "@+x")] none
    (.ofName .person "+x" .main) _ hrequest
  refine ⟨x, hx, ?_⟩
  have hmade : ((empty.run [.make (some "a") (.parse "@+x")]).make none
      (.ofName .person "+x" .main)).1.map (·.subject.endpoint.kind) = .ok .institution := by
    decide +kernel
  rw [hx] at hmade
  exact Except.ok.inj hmade

/-- Once the endpoint itself was used, the record of a person whose name is `@local` gives it. -/
theorem local_for_person_record :
    ((empty.run [.use none .localNode]).make none (.decode (.endpoint .person false)
      [6, 0, 255, 64, 108, 111, 99, 97, 108])).1.map (·.subject.endpoint) =
        .ok Endpoint.localNode := by
  decide +kernel

end Holdings

end Dxb
