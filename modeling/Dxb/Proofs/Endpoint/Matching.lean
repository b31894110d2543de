import Dxb.Proofs.Endpoint.Histories

/-!
# Who passes a filter

Call the text of an endpoint without its instance its identity.  Handles are matched by the places
that they and their main endpoints lead to; `Handle.Passes` says in terms of identities and
instances which values a filter takes.  As long as the table and the handles agree, this is the same
(`Valid.satisfies_iff`), and it is what `Target.satisfies` decides by texts alone
(`Valid.satisfies_target`).

    (h.satisfies x y).1 = true ↔ x.Passes y                            (satisfies_law)
-/

namespace Dxb

/-- The values that a filter takes. -/
inductive Handle.Passes : Handle → Handle → Prop
  /-- `@@any` takes everything. -/
  | everyone {value : Handle} {f : EndpointRef} (any : f.canonical = "@@any") :
      Passes value (.endpoint f)
  /-- An endpoint takes itself, and without an instance all instances of its identity. -/
  | plain {v f : EndpointRef} (identity : v.endpoint.mainText = f.endpoint.mainText)
      (inst : f.endpoint.inst = 0 ∨ f.endpoint.inst = v.endpoint.inst) :
      Passes (.endpoint v) (.endpoint f)
  /-- A wildcard takes all instances of the identity that it is about, whichever it is over. -/
  | anyInstance {v : EndpointRef} {w : WildcardRef}
      (identity : v.endpoint.mainText = w.value.endpoint.mainText) :
      Passes (.endpoint v) (.wildcard w)
  /-- Of wildcards, a wildcard takes the one over the same endpoint. -/
  | sameWildcard {v w : WildcardRef} (covered : v.value = w.value) :
      Passes (.wildcard v) (.wildcard w)

/-- `@@any` has no instance. -/
theorem Endpoint.inst_of_canonical_any {e : Endpoint} (h : e.canonical = "@@any") : e.inst = 0 := by
  have hbroadcast : Endpoint.broadcast.canonical = "@@any" := by decide
  rw [← hbroadcast, canonical_eq_iff_of_parts] at h
  exact h.2

namespace Handle.Passes

theorem refl (r : EndpointRef) : (Handle.endpoint r).Passes (.endpoint r) := .plain rfl (.inr rfl)

theorem trans {a b c : EndpointRef} (hab : (Handle.endpoint a).Passes (.endpoint b))
    (hbc : (Handle.endpoint b).Passes (.endpoint c)) :
    (Handle.endpoint a).Passes (.endpoint c) := by
  cases hbc with
  | everyone any => exact .everyone any
  | plain identity inst =>
    cases hab with
    | everyone any =>
      -- nothing but itself takes `@@any`
      have hb : b.endpoint.inst = 0 := Endpoint.inst_of_canonical_any any
      rw [hb, or_self] at inst
      refine .everyone (Eq.trans ?_ any)
      exact Endpoint.canonical_eq_iff_of_parts.2 ⟨identity.symm, inst.trans hb.symm⟩
    | plain identity' inst' =>
      refine .plain (identity'.trans identity) ?_
      rcases inst with hzero | hsame
      · exact .inl hzero
      · rwa [hsame]

end Handle.Passes

namespace Interning

variable {t : Interning} {held : List Handle}

/-! ## Handles that lead to the same place -/

section Places

variable {a b : EndpointRef} (ht : t.Owned held) (ha : t.Live (.endpoint a))
  (hb : t.Live (.endpoint b))

include ht ha

theorem Owned.main_parts :
    a.main.endpoint.mainText = a.endpoint.mainText ∧ a.main.endpoint.inst = 0 := by
  have hcanonical := ht.canonical_main ha
  rw [← Endpoint.canonical_main] at hcanonical
  exact Endpoint.canonical_eq_iff_of_parts.1 hcanonical

include hb

theorem Owned.same_iff : a.same b = true ↔
    a.endpoint.mainText = b.endpoint.mainText ∧ a.endpoint.inst = b.endpoint.inst :=
  (ht.same_endpoint_iff ha hb).trans Endpoint.canonical_eq_iff_of_parts

theorem Owned.main_same_iff : a.main.same b = true ↔
    a.endpoint.mainText = b.endpoint.mainText ∧ b.endpoint.inst = 0 := by
  rw [ht.same_iff (ht.live_main ha) hb, (ht.main_parts ha).1, (ht.main_parts ha).2,
    eq_comm (a := (0 : UInt16))]

theorem Owned.mains_same_iff :
    a.main.same b.main = true ↔ a.endpoint.mainText = b.endpoint.mainText := by
  rw [ht.main_same_iff ha (ht.live_main hb), (ht.main_parts hb).1, (ht.main_parts hb).2]
  exact and_iff_left rfl

end Places

end Interning

namespace Holdings

open Interning

variable {h : Holdings} {x y : Handle}

/-! ## Matching -/

/-- Whether a filter is `@@any`, the first use of which may be this very question. -/
theorem Valid.same_everyone_iff (hv : h.Valid) {f : EndpointRef}
    (hf : h.table.Live (.endpoint f)) :
    f.same (h.force .everyone).1 = true ↔ f.canonical = "@@any" := by
  obtain ⟨hlive, htext⟩ := hv.live_force .everyone
  have hkept : (h.force .everyone).2.table.Live (.endpoint f) := by
    unfold Holdings.force
    cases h.used.lookup Permanent.everyone with
    | some r => exact hf
    | none => exact hv.owned.live_build hf _
  have hany : Permanent.everyone.text = "@@any" := by decide
  rw [(hv.force .everyone).1.owned.same_endpoint_iff hkept hlive, htext, hany]

/-- The places that handles lead to tell who passes. -/
theorem Valid.satisfies_iff (hv : h.Valid) (hx : h.table.Live x) (hy : h.table.Live y) :
    (h.satisfies x y).1 = true ↔ x.Passes y := by
  have ht := hv.owned
  unfold Holdings.satisfies
  cases y with
  | endpoint f =>
    cases x with
    | endpoint v =>
      simp only [Handle.meets, Handle.same, Bool.or_eq_true, hv.same_everyone_iff hy,
        ht.same_iff hx hy, ht.main_same_iff hx hy]
      constructor
      · rintro (any | ⟨identity, inst⟩ | ⟨identity, zero⟩ | ⟨identity, inst⟩)
        · exact .everyone any
        · exact .plain identity (.inr inst.symm)
        · exact .plain identity (.inl zero)
        · exact .plain identity (.inr inst.symm)
      · rintro (any | ⟨identity, zero | inst⟩)
        · exact .inl any
        · exact .inr (.inr (.inl ⟨identity, zero⟩))
        · exact .inr (.inr (.inr ⟨identity, inst.symm⟩))
    | wildcard v =>
      simp only [Handle.meets, Handle.same, Bool.or_false, hv.same_everyone_iff hy]
      constructor
      · exact .everyone
      · intro h
        cases h with
        | everyone any => exact any
  | wildcard w =>
    cases x with
    | endpoint v =>
      simp only [Handle.meets, Handle.same, Bool.false_or,
        ht.mains_same_iff hx (ht.live_covered hy)]
      constructor
      · exact .anyInstance
      · intro h
        cases h with
        | anyInstance identity => exact identity
    | wildcard v =>
      simp only [Handle.meets, Handle.same, Bool.or_false, ht.same_wildcard_iff hx hy]
      constructor
      · exact .sameWildcard
      · intro h
        cases h with
        | sameWildcard covered => exact covered

/-- Texts alone tell the same. -/
theorem Valid.satisfies_target (hv : h.Valid) (hx : h.table.Live x) (hy : h.table.Live y) :
    (h.satisfies x y).1 = x.target.satisfies y.target := by
  have ht := hv.owned
  have hsame : ∀ {a b : EndpointRef}, h.table.Live (.endpoint a) → h.table.Live (.endpoint b) →
      a.same b = Target.sameEndpoint a.endpoint b.endpoint := fun ha hb => by
    rw [Bool.eq_iff_iff, ht.same_endpoint_iff ha hb, Target.sameEndpoint, beq_iff_eq]
    rfl
  have hmain : ∀ {a : EndpointRef}, h.table.Live (.endpoint a) →
      a.main.endpoint.canonical = a.endpoint.main.canonical := fun ha =>
    (ht.canonical_main ha).trans (Endpoint.canonical_main _).symm
  have hany : ∀ {f : EndpointRef}, h.table.Live (.endpoint f) →
      f.same (h.force .everyone).1 = Target.sameEndpoint f.endpoint Endpoint.broadcast := by
    intro f hf
    have hbroadcast : Endpoint.broadcast.canonical = "@@any" := by decide
    rw [Bool.eq_iff_iff, hv.same_everyone_iff hf, Target.sameEndpoint, beq_iff_eq, hbroadcast]
    rfl
  cases y with
  | endpoint f =>
    cases x with
    | endpoint v =>
      show (f.same (h.force .everyone).1 || (v.same f || (v.main.same f || v.same f))) =
        (Target.sameEndpoint f.endpoint Endpoint.broadcast ||
          (Target.sameEndpoint v.endpoint f.endpoint ||
            Target.sameEndpoint v.endpoint.main f.endpoint))
      have htwice : ∀ same main : Bool, (same || (main || same)) = (same || main) := by decide
      rw [htwice, hany hy, hsame hx hy, hsame (ht.live_main hx) hy]
      simp only [Target.sameEndpoint, hmain hx]
    | wildcard v =>
      show (f.same (h.force .everyone).1 || (false || false)) =
        (Target.sameEndpoint f.endpoint Endpoint.broadcast || false)
      rw [hany hy]
      rfl
  | wildcard w =>
    have hw := ht.live_covered hy
    cases x with
    | endpoint v =>
      show (false || v.main.same w.value.main) =
        Target.sameEndpoint v.endpoint.main w.value.endpoint.main
      rw [hsame (ht.live_main hx) (ht.live_main hw)]
      simp only [Target.sameEndpoint, hmain hx, hmain hw, Bool.false_or]
    | wildcard v =>
      show (v.same w || false) = Target.sameEndpoint v.value.endpoint w.value.endpoint
      have hcovered := ht.live_covered hx
      rw [Bool.or_false, ← hsame hcovered hw, Bool.eq_iff_iff, ht.same_wildcard_iff hx hy,
        Registry.Holds.same_iff hcovered hw]

/-- After any steps: a handle in use passes the filter that names another one exactly as identities
and instances say.  So endpoints pass the filters that name themselves and their main endpoint,
passing goes on from endpoint to endpoint, and no main endpoint passes a filter that names one of
its instances. -/
theorem satisfies_law (steps : List HoldingStep) :
    let h := empty.run steps
    (∀ x y, h.table.Live x → h.table.Live y → ((h.satisfies x y).1 = true ↔ x.Passes y)) ∧
    (∀ r, h.table.Live (.endpoint r) → (h.satisfies (.endpoint r) (.endpoint r)).1 = true) ∧
    (∀ a b c, h.table.Live (.endpoint a) → h.table.Live (.endpoint b) →
      h.table.Live (.endpoint c) → (h.satisfies (.endpoint a) (.endpoint b)).1 = true →
        (h.satisfies (.endpoint b) (.endpoint c)).1 = true →
          (h.satisfies (.endpoint a) (.endpoint c)).1 = true) ∧
    (∀ r, h.table.Live (.endpoint r) → (h.satisfies (.endpoint r) (.endpoint r.main)).1 = true) ∧
    ∀ f, h.table.Live (.endpoint f) → f.endpoint.inst ≠ 0 →
      (h.satisfies (.endpoint f.main) (.endpoint f)).1 = false := by
  have hv := valid_run steps
  have ho := hv.owned
  refine ⟨fun x y hx hy => hv.satisfies_iff hx hy, fun r hr => ?_, ?_, fun r hr => ?_,
    fun f hf hinst => ?_⟩
  · exact (hv.satisfies_iff hr hr).2 (.refl r)
  · intro a b c ha hb hc hab hbc
    rw [hv.satisfies_iff ha hb] at hab
    rw [hv.satisfies_iff hb hc] at hbc
    exact (hv.satisfies_iff ha hc).2 (hab.trans hbc)
  · obtain ⟨hidentity, hzero⟩ := ho.main_parts hr
    exact (hv.satisfies_iff hr (ho.live_main hr)).2 (.plain hidentity.symm (.inl hzero))
  · rw [Bool.eq_false_iff, Ne, hv.satisfies_iff (ho.live_main hf) hf]
    intro h
    cases h with
    | everyone any => exact hinst (Endpoint.inst_of_canonical_any any)
    | plain _ inst => exact inst.elim hinst fun h => hinst (h.trans (ho.main_parts hf).2)

/-- Somebody uses `@tg_law/0001`, the wildcard over `@tg_law/0002`, and `@@any`. -/
def filtersInUse : List HoldingStep :=
  [.make (some "a") (.parse "@tg_law/0001"),
    .make (some "w") (.parseTarget "@tg_law/0002" (some (.endpoint .person true))),
    .use (some "any") .everyone]

/-- One instance, its main endpoint and `@@any`, and a wildcard over another instance. -/
theorem satisfies_law_of_instances :
    let h := empty.run filtersInUse
    ∃ (r any : EndpointRef) (w : WildcardRef),
      r.endpoint.mainText = "@tg_law" ∧ r.endpoint.inst = 1 ∧ any.canonical = "@@any" ∧
      w.value.endpoint.mainText = "@tg_law" ∧ w.value.endpoint.inst = 2 ∧
      (h.satisfies (.endpoint r) (.endpoint r)).1 = true ∧
      (h.satisfies (.endpoint r) (.wildcard w)).1 = true ∧
      (h.satisfies (.endpoint r) (.endpoint r.main)).1 = true ∧
      (h.satisfies (.endpoint r.main) (.endpoint any)).1 = true ∧
      (h.satisfies (.endpoint r) (.endpoint any)).1 = true ∧
      (h.satisfies (.endpoint r.main) (.endpoint r)).1 = false := by
  intro h
  have ho := (valid_run filtersInUse).owned
  obtain ⟨hiff, hrefl, htrans, hmain, hnot⟩ := satisfies_law filtersInUse
  have ha : (h.get? "a").map (fun x =>
      (x.isWildcard, x.subject.endpoint.mainText, x.subject.endpoint.inst)) =
        some (false, "@tg_law", 1) := by decide +kernel
  have hw : (h.get? "w").map (fun x =>
      (x.isWildcard, x.subject.endpoint.mainText, x.subject.endpoint.inst)) =
        some (true, "@tg_law", 2) := by decide +kernel
  have heveryone : h.reachable.any (·.canonical == "@@any") = true := by decide +kernel
  obtain ⟨x, hx, hxparts⟩ := Option.map_eq_some_iff.1 ha
  obtain ⟨y, hy, hyparts⟩ := Option.map_eq_some_iff.1 hw
  obtain ⟨any, hany, htext⟩ := (valid_run filtersInUse).exists_live heveryone
  have htext : any.canonical = "@@any" := beq_iff_eq.1 htext
  have hlive := ho.live (mem_held_of_get? hx)
  have hfilter := ho.live (mem_held_of_get? hy)
  cases x with
  | wildcard _ => cases hxparts
  | endpoint r =>
    cases y with
    | endpoint _ => cases hyparts
    | wildcard w =>
      obtain ⟨hrtext, hrinst⟩ := Prod.mk.inj (Prod.mk.inj hxparts).2
      obtain ⟨hwtext, hwinst⟩ := Prod.mk.inj (Prod.mk.inj hyparts).2
      have hpasses := (hiff _ _ hlive hfilter).2 (.anyInstance (hrtext.trans hwtext.symm))
      have hmainany := (hiff _ _ (ho.live_main hlive) hany).2 (.everyone htext)
      have hrany := htrans _ _ _ hlive (ho.live_main hlive) hany (hmain r hlive) hmainany
      have hinst : r.endpoint.inst ≠ 0 := by
        rw [show r.endpoint.inst = 1 from hrinst]
        decide
      exact ⟨r, any, w, hrtext, hrinst, htext, hwtext, hwinst, hrefl r hlive, hpasses,
        hmain r hlive, hmainany, hrany, hnot r hlive hinst⟩

end Holdings

end Dxb
