import Dxb.Proofs.Bytes.SelfDelimiting
import Dxb.Proofs.Endpoint.Identity
import Dxb.Proofs.Endpoint.Wire

/-!
# Endpoints through their records

Whoever decodes the record of an endpoint in use gets a handle to that endpoint, or to the wildcard
over it, and stops behind the record.  Records may say the same in many ways: with padding, with
subspaces, with any instance.  All of them are decoded to handles whose own record says it in one
way, so encoding what was decoded and decoding it once more gives the same handle
(`record_round_trip`).
-/

namespace Dxb

/-- Whether the record behind an opcode is taken for a wildcard over its endpoint. -/
def Opcode.isWildcardEndpoint : Opcode → Bool
  | .endpoint _ wild => wild
  | _ => false

namespace EndpointRecord

theorem isWildcard_of_target? {r : EndpointRecord} {opcode : Opcode} {target : Target}
    (h : r.target? opcode = .ok target) : target.isWildcard = opcode.isWildcardEndpoint := by
  have hflag : ∀ {kind : EndpointKind} {wild : Bool},
      Target.ofEndpoint wild <$> r.endpoint? kind = .ok target → target.isWildcard = wild := by
    intro kind wild he
    obtain ⟨e, -, rfl⟩ := map_eq_ok_iff.1 he
    exact Target.isWildcard_ofEndpoint wild e
  cases opcode <;> exact hflag h

end EndpointRecord

theorem Endpoint.target?_record (e : Endpoint) (wild : Bool) :
    e.record.target? (.endpoint e.kind wild) = .ok (Target.ofEndpoint wild e) := by
  show Target.ofEndpoint wild <$> e.record.endpoint? e.kind = _
  rw [e.endpoint?_record]
  rfl

namespace Interning

variable {t : Interning} {held : List Handle}

/-! ## Asking again for what is in use -/

theorem Owned.subject_acquireTarget_of_live (ht : t.Owned held) {r : EndpointRef}
    (hr : t.Live (.endpoint r)) (wild : Bool) :
    (t.acquireTarget (Target.ofEndpoint wild r.endpoint)).1.subject = r := by
  have hbuild : (t.build r.endpoint).1 = r := ht.build_eq_of_canonical hr rfl
  cases wild with
  | false => exact hbuild
  | true =>
    have hb := ht.build r.endpoint
    exact (hb.value_cover (hb.live List.mem_cons_self)).trans hbuild

/-- Over what a wildcard is about there is no other one. -/
theorem Owned.cover_of_live (ht : t.Owned held) {w : WildcardRef} (hw : t.Live (.wildcard w)) :
    (t.cover w.value).1 = w := by
  rw [cover_of_find?_eq_some (ht.find?_wildcard_eq_some_iff.2 ⟨hw, rfl⟩)]

/-- A handle that is held is handed out again for what it leads to. -/
theorem Owned.acquireTarget_of_held (ht : t.Owned held) {x : Handle} (hx : x ∈ held) :
    (t.acquireTarget (Target.ofEndpoint x.isWildcard x.subject.endpoint)).1 = x := by
  have hlive := ht.live_subject hx
  cases x with
  | endpoint r => exact congrArg Handle.endpoint (ht.build_eq_of_canonical hlive rfl)
  | wildcard w =>
    have hbuild : (t.build w.value.endpoint).1 = w.value := ht.build_eq_of_canonical hlive rfl
    have hb := ht.build w.value.endpoint
    have hcover := hb.cover_of_live (hb.live (List.mem_cons_of_mem _ hx))
    show Handle.wildcard ((t.build w.value.endpoint).2.cover (t.build w.value.endpoint).1).1 = _
    rw [hbuild, hcover]

/-! ## Decoding -/

theorem takes_decode (t : Interning) (e : Endpoint) (wild : Bool) :
    (t.decode (.endpoint e.kind wild)).Takes e.record.write
      (.ok (t.acquireTarget (Target.ofEndpoint wild e))) := by
  have hmap := (e.record.takes e.fits_record).map
    fun record => (record.target? (.endpoint e.kind wild)).map t.acquireTarget
  rwa [e.target?_record] at hmap

/-- Whatever is decoded is a handle that was asked for with the flag of the opcode. -/
theorem ensures_decode (t : Interning) (opcode : Opcode) :
    (t.decode opcode).Ensures fun made => ∀ x t', made = .ok (x, t') →
      ∃ target, target.isWildcard = opcode.isWildcardEndpoint ∧
        (x, t') = t.acquireTarget target := by
  refine EndpointRecord.read.ensures_of_rest fun record => Reader.ensures_pure ?_
  intro x t' hmade
  obtain ⟨target, htarget, hx⟩ := map_eq_ok_iff.1 hmade
  exact ⟨target, EndpointRecord.isWildcard_of_target? htarget, hx.symm⟩

end Interning

namespace Holdings

/-- After any steps: in front of any bytes, the record of an endpoint in use is decoded to that
endpoint, or to a wildcard over that endpoint.  And whatever handle some bytes are decoded to behind
some opcode, while it is held the record of its endpoint is decoded to the same handle, with the
kind of that endpoint and the same flag. -/
theorem record_round_trip (steps : List HoldingStep) :
    let table := (empty.run steps).table
    (∀ r, table.Live (.endpoint r) → ∀ wild, ∃ x t',
      (table.decode (.endpoint r.endpoint.kind wild)).Takes r.endpoint.record.write
        (.ok (x, t')) ∧ x.subject = r ∧ x.isWildcard = wild) ∧
    ∀ (opcode : Opcode) (cursor stopped : Cursor) (x : Handle) (t' : Interning),
      (table.decode opcode).run cursor = (.ok (.ok (x, t')), stopped) →
        x.isWildcard = opcode.isWildcardEndpoint ∧
        ∃ t'', (t'.decode (.endpoint x.subject.endpoint.kind opcode.isWildcardEndpoint)).Takes
          x.subject.endpoint.record.write (.ok (x, t'')) := by
  have ho := (valid_run steps).owned
  refine ⟨fun r hr wild => ?_, fun opcode cursor stopped x t' hdecode => ?_⟩
  · refine ⟨_, _, Interning.takes_decode _ r.endpoint wild,
      ho.subject_acquireTarget_of_live hr wild, ?_⟩
    exact (ho.isWildcard_acquireTarget _).trans (Target.isWildcard_ofEndpoint wild _)
  · obtain ⟨target, hflag, hmade⟩ := Interning.ensures_decode _ _ _ _ _ hdecode x t' rfl
    have hheld : t'.Owned (x :: (empty.run steps).held) := by
      have hacquired := ho.acquireTarget target
      rwa [← hmade] at hacquired
    have hwild : x.isWildcard = opcode.isWildcardEndpoint := by
      have hacquired := ho.isWildcard_acquireTarget target
      rwa [← hmade, hflag] at hacquired
    rw [← hwild]
    obtain ⟨t'', hsame⟩ : ∃ t'', t'.acquireTarget
        (Target.ofEndpoint x.isWildcard x.subject.endpoint) = (x, t'') :=
      ⟨_, Prod.ext (hheld.acquireTarget_of_held List.mem_cons_self) rfl⟩
    have htakes := Interning.takes_decode t' x.subject.endpoint x.isWildcard
    rw [hsame] at htakes
    exact ⟨rfl, t'', htakes⟩

/-- Somebody uses `@+ep_rec/0003`. -/
def recordedInUse : List HoldingStep := [.make (some "a") (.parse "@+ep_rec/0003")]

/-- A record of `@+ep_rec` with padding, a subspace and any instance, and one byte more. -/
def looseRecord : List UInt8 :=
  [8, 1, 0] ++ utf8 "ep_rec" ++ [0, 0] ++ [1] ++ utf8 "s" ++ [0xc9]

/-- The record of the endpoint in use, and a loose record behind the opcode of a wildcard. -/
theorem record_round_trip_of_loose_record :
    let table := (empty.run recordedInUse).table
    (∃ r x t', r.canonical = "@+ep_rec/0003" ∧
      (table.decode (.endpoint r.endpoint.kind true)).Takes r.endpoint.record.write
        (.ok (x, t')) ∧ x.subject = r ∧ x.isWildcard = true) ∧
    ∃ x t' stopped t'', (table.decode (.endpoint .institution true)).run (.ofBytes looseRecord) =
        (.ok (.ok (x, t')), stopped) ∧ x.text = "@+ep_rec" ∧ x.isWildcard = true ∧
      (t'.decode (.endpoint x.subject.endpoint.kind true)).Takes x.subject.endpoint.record.write
        (.ok (x, t'')) := by
  obtain ⟨hwritten, hdecoded⟩ := record_round_trip recordedInUse
  constructor
  · have hused : (empty.run recordedInUse).reachable.any (·.canonical == "@+ep_rec/0003") =
        true := by decide +kernel
    obtain ⟨r, hr, hcanonical⟩ := (valid_run recordedInUse).exists_live hused
    obtain ⟨x, t', hx⟩ := hwritten r hr true
    exact ⟨r, x, t', beq_iff_eq.1 hcanonical, hx⟩
  · have htext : (((empty.run recordedInUse).table.decode (.endpoint .institution true)).run
        (.ofBytes looseRecord)).1.map (·.toOption.map (·.1.text)) = .ok (some "@+ep_rec") := by
      decide +kernel
    cases hrun : ((empty.run recordedInUse).table.decode (.endpoint .institution true)).run
        (.ofBytes looseRecord) with
    | mk result stopped =>
      rw [hrun] at htext
      rcases result with _ | _ | ⟨x, t'⟩
      · cases htext
      · cases htext
      · obtain ⟨hwild, t'', htakes⟩ := hdecoded _ _ _ x t' hrun
        exact ⟨x, t', stopped, t'', rfl, Option.some.inj (Except.ok.inj htext), hwild, htakes⟩

end Holdings

end Dxb
