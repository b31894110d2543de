import Dxb.Endpoint.Interning
import Dxb.Proofs.Endpoint.Canonical
import Dxb.Proofs.Endpoint.Registry

/-!
# Who owns what

`Owned t held` says that the owner counts of an interning table are right when `held` are all the
handles outside of it: the owners of an endpoint are the handles to it, the endpoints that have it
as their main endpoint, and the wildcards over it.  Sharing, making and giving back turn the handles
before into the handles after.

    t.Live h → t.Owned held → (t.share h).Owned (h :: held)                  (Owned.share)
    t.Owned (h :: held) → (t.drop h).Owned held                              (Owned.drop)

What dies hands its own handles on: between the two halves of `drop` they count as held outside.
From the counts alone follows what is alive: the endpoints that handles are about, and their main
endpoints (`Owned.live_iff`).
-/

namespace Dxb

namespace Handle

/-- Whether a handle leads to the endpoint at a place. -/
def toEndpoint (place : Nat) : Handle → Bool
  | endpoint r => r.place == place
  | wildcard _ => false

/-- Whether a handle leads to the wildcard at a place. -/
def toWildcard (place : Nat) : Handle → Bool
  | endpoint _ => false
  | wildcard w => w.place == place

end Handle

namespace Interned

/-- Whether an endpoint owns the main endpoint at a place. -/
def ownsMain (place : Nat) (i : Interned) : Bool := i.main.any (·.place == place)

/-- The handles that an endpoint gives back when nobody owns it any more. -/
def handles (i : Interned) : List Handle := i.main.toList.map fun m => .endpoint (.ofMain m)

theorem countP_handles (i : Interned) (place : Nat) :
    i.handles.countP (Handle.toEndpoint place) = if i.ownsMain place then 1 else 0 := by
  obtain ⟨e, main⟩ := i
  cases main with
  | none => rfl
  | some m => simp [handles, ownsMain, Handle.toEndpoint, Ref.ofMain, List.countP_singleton]

theorem countP_handles_toWildcard (i : Interned) (place : Nat) :
    i.handles.countP (Handle.toWildcard place) = 0 := by
  obtain ⟨e, main⟩ := i
  cases main <;> rfl

end Interned

/-- The cell that a handle leads to has owners, and the value that the handle has. -/
def Registry.Holds {α : Type} (r : Registry α) (h : Ref α) : Prop :=
  0 < r.owners h.place ∧ r.value? h.place = some h.value

theorem Registry.Holds.eq_of_place {α : Type} {r : Registry α} {a b : Ref α} (ha : r.Holds a)
    (hb : r.Holds b) (h : a.place = b.place) : a = b := by
  have hv : r.value? a.place = some a.value := ha.2
  rw [h, hb.2] at hv
  cases a
  cases b
  cases h
  cases hv
  rfl

theorem Registry.Holds.same_iff {α : Type} {r : Registry α} {a b : Ref α} (ha : r.Holds a)
    (hb : r.Holds b) : a.same b = true ↔ a = b := by
  unfold Ref.same
  rw [beq_iff_eq]
  exact ⟨ha.eq_of_place hb, congrArg Ref.place⟩

namespace Interning

/-- A handle has the value that lies at its place. -/
def Knows (t : Interning) : Handle → Prop
  | .endpoint r => t.endpoints.value? r.place = some r.value
  | .wildcard w => t.wildcards.value? w.place = some w.value

/-- A handle leads to something that has owners. -/
def Live (t : Interning) : Handle → Prop
  | .endpoint r => t.endpoints.Holds r
  | .wildcard w => t.wildcards.Holds w

/-- An endpoint with an instance has its main endpoint, and one without has none. -/
def MainKnown (t : Interning) (i : Interned) : Prop :=
  match i.main with
  | none => i.endpoint.isMain = true
  | some m => i.endpoint.isMain = false ∧ m.value.canonical = i.endpoint.mainText ∧
      t.Knows (.endpoint (.ofMain m))

/-- The tables lead to the cells with owners, and cells are registered under the text of what lies
in them. -/
structure Consistent (t : Interning) : Prop where
  endpoints_exact : t.endpoints.Exact
  wildcards_exact : t.wildcards.Exact
  interned : ∀ {p i}, t.endpoints.value? p = some i →
    t.endpoints.key? p = some i.endpoint.canonical ∧ t.MainKnown i
  covered : ∀ {p r}, t.wildcards.value? p = some r →
    t.wildcards.key? p = some r.canonical ∧ t.Knows (.endpoint r)

/-- The counts are right when `held` are the handles outside of the table. -/
structure Owned (t : Interning) (held : List Handle) : Prop extends Consistent t where
  endpoint_owners : ∀ p, t.endpoints.owners p = held.countP (Handle.toEndpoint p) +
    t.endpoints.tally (Interned.ownsMain p) + t.wildcards.tally (·.place == p)
  wildcard_owners : ∀ p, t.wildcards.owners p = held.countP (Handle.toWildcard p)
  knows : ∀ h ∈ held, t.Knows h

variable {t : Interning} {held : List Handle}

theorem owned_empty : empty.Owned [] where
  endpoints_exact := Registry.exact_empty
  wildcards_exact := Registry.exact_empty
  interned h := by simp [empty, Registry.value?, Registry.empty] at h
  covered h := by simp [empty, Registry.value?, Registry.empty] at h
  endpoint_owners p := by simp [empty, Registry.owners, Registry.empty, Registry.tally]
  wildcard_owners p := by simp [empty, Registry.owners, Registry.empty]
  knows h hh := by cases hh

theorem Owned.perm (ht : t.Owned held) {held' : List Handle} (h : held.Perm held') :
    t.Owned held' where
  toConsistent := ht.toConsistent
  endpoint_owners p := by rw [ht.endpoint_owners p, h.countP_eq]
  wildcard_owners p := by rw [ht.wildcard_owners p, h.countP_eq]
  knows x hx := ht.knows x (h.mem_iff.2 hx)

/-! ## What lies in memory stays -/

/-- Whatever lies at a place of `t` lies there in `t'`. -/
structure Grows (t t' : Interning) : Prop where
  endpoints : ∀ {p i}, t.endpoints.value? p = some i → t'.endpoints.value? p = some i
  wildcards : ∀ {p r}, t.wildcards.value? p = some r → t'.wildcards.value? p = some r

theorem Knows.grow {t' : Interning} {h : Handle} (hh : t.Knows h) (g : t.Grows t') :
    t'.Knows h := by
  cases h with
  | endpoint r => exact g.endpoints hh
  | wildcard w => exact g.wildcards hh

theorem MainKnown.grow {t' : Interning} {i : Interned} (hi : t.MainKnown i) (g : t.Grows t') :
    t'.MainKnown i := by
  unfold MainKnown at *
  split
  · rename_i hm
    rwa [hm] at hi
  · rename_i m hm
    rw [hm] at hi
    exact ⟨hi.1, hi.2.1, hi.2.2.grow g⟩

/-- A change of owner counts leaves the cells as they are. -/
theorem Consistent.recounted (ht : t.Consistent) (t' : Interning) (he : t'.endpoints.Exact)
    (hw : t'.wildcards.Exact) (hev : ∀ p, t'.endpoints.value? p = t.endpoints.value? p)
    (hek : ∀ p, t'.endpoints.key? p = t.endpoints.key? p)
    (hwv : ∀ p, t'.wildcards.value? p = t.wildcards.value? p)
    (hwk : ∀ p, t'.wildcards.key? p = t.wildcards.key? p) :
    t'.Consistent ∧ t.Grows t' := by
  have g : t.Grows t' := ⟨fun h => by rwa [hev], fun h => by rwa [hwv]⟩
  refine ⟨⟨he, hw, ?_, ?_⟩, g⟩
  · intro p i hi
    rw [hev] at hi
    obtain ⟨hk, hm⟩ := ht.interned hi
    exact ⟨by rwa [hek], hm.grow g⟩
  · intro p r hr
    rw [hwv] at hr
    obtain ⟨hk, hm⟩ := ht.covered hr
    exact ⟨by rwa [hwk], hm.grow g⟩

/-! ## What is alive -/

theorem Owned.live (ht : t.Owned held) {h : Handle} (hh : h ∈ held) : t.Live h := by
  cases h with
  | endpoint r =>
    refine ⟨?_, ht.knows _ hh⟩
    have hc : 0 < held.countP (Handle.toEndpoint r.place) :=
      List.countP_pos_iff.2 ⟨_, hh, by simp [Handle.toEndpoint]⟩
    rw [ht.endpoint_owners]
    omega
  | wildcard w =>
    refine ⟨?_, ht.knows _ hh⟩
    have hc : 0 < held.countP (Handle.toWildcard w.place) :=
      List.countP_pos_iff.2 ⟨_, hh, by simp [Handle.toWildcard]⟩
    rw [ht.wildcard_owners]
    omega

/-- What a live wildcard is about is alive. -/
theorem Owned.live_covered (ht : t.Owned held) {w : WildcardRef} (hw : t.Live (.wildcard w)) :
    t.Live (.endpoint w.value) := by
  refine ⟨?_, (ht.covered hw.2).2⟩
  have : 0 < t.wildcards.tally (·.place == w.value.place) :=
    Registry.tally_pos_iff.2 ⟨_, _, hw.1, hw.2, by simp⟩
  rw [ht.endpoint_owners]
  omega

/-- The main endpoint of a live endpoint is alive. -/
theorem Owned.live_main (ht : t.Owned held) {r : EndpointRef} (hr : t.Live (.endpoint r)) :
    t.Live (.endpoint r.main) := by
  unfold Ref.main
  split
  · rename_i m hm
    have hk := (ht.interned hr.2).2
    unfold MainKnown at hk
    rw [hm] at hk
    refine ⟨?_, hk.2.2⟩
    have : 0 < t.endpoints.tally (Interned.ownsMain m.place) :=
      Registry.tally_pos_iff.2 ⟨_, _, hr.1, hr.2, by simp [Interned.ownsMain, hm]⟩
    show 0 < t.endpoints.owners m.place
    rw [ht.endpoint_owners]
    omega
  · exact hr

/-- A main endpoint has the text of the endpoint without its instance. -/
theorem Owned.canonical_main (ht : t.Owned held) {r : EndpointRef} (hr : t.Live (.endpoint r)) :
    r.main.canonical = r.endpoint.mainText := by
  have hk := (ht.interned hr.2).2
  unfold Ref.main
  unfold MainKnown at hk
  split
  · rename_i m hm
    rw [hm] at hk
    exact hk.2.1
  · rename_i hm
    rw [hm] at hk
    have h0 : r.endpoint.inst = 0 := by simpa [Endpoint.isMain, Ref.endpoint] using hk
    simp [Ref.canonical, Endpoint.canonical, h0]

/-- The table finds what is alive, by its text. -/
theorem Owned.find?_eq_some_iff (ht : t.Owned held) {key : String} {r : EndpointRef} :
    t.find? key = some r ↔ t.Live (.endpoint r) ∧ r.canonical = key := by
  constructor
  · intro h
    obtain ⟨ho, hk, hv⟩ := (Registry.find?_eq_some_iff ht.endpoints_exact).1 h
    refine ⟨⟨ho, hv⟩, ?_⟩
    have hkey := (ht.interned hv).1
    rw [hk] at hkey
    exact (Option.some.inj hkey).symm
  · rintro ⟨⟨ho, hv⟩, rfl⟩
    exact (Registry.find?_eq_some_iff ht.endpoints_exact).2 ⟨ho, (ht.interned hv).1, hv⟩

theorem Owned.find?_wildcard_eq_some_iff (ht : t.Owned held) {key : String} {w : WildcardRef} :
    t.wildcards.find? key = some w ↔ t.Live (.wildcard w) ∧ w.value.canonical = key := by
  constructor
  · intro h
    obtain ⟨ho, hk, hv⟩ := (Registry.find?_eq_some_iff ht.wildcards_exact).1 h
    refine ⟨⟨ho, hv⟩, ?_⟩
    have hkey := (ht.covered hv).1
    rw [hk] at hkey
    exact (Option.some.inj hkey).symm
  · rintro ⟨⟨ho, hv⟩, rfl⟩
    exact (Registry.find?_eq_some_iff ht.wildcards_exact).2 ⟨ho, (ht.covered hv).1, hv⟩

/-! ## Sharing -/

theorem Owned.share (ht : t.Owned held) {h : Handle} (hl : t.Live h) :
    (t.share h).Owned (h :: held) := by
  cases h with
  | endpoint r =>
    obtain ⟨ho, hv⟩ : t.endpoints.Holds r := hl
    obtain ⟨hc, g⟩ := ht.recounted (t.share (.endpoint r)) (ht.endpoints_exact.share ho)
      ht.wildcards_exact (by simp [Interning.share]) (by simp [Interning.share])
      (fun _ => rfl) (fun _ => rfl)
    refine ⟨hc, ?_, ?_, ?_⟩
    · intro p
      have hp := ht.endpoint_owners p
      have hs := Registry.owners_share ho p
      have htally : (t.endpoints.share r.place).tally (Interned.ownsMain p) =
          t.endpoints.tally (Interned.ownsMain p) := Registry.tally_recount ho (by omega) _
      simp only [Interning.share, List.countP_cons, Handle.toEndpoint, beq_iff_eq]
      omega
    · intro p
      simp [Interning.share, ht.wildcard_owners p, Handle.toWildcard]
    · intro x hx
      rcases List.mem_cons.1 hx with rfl | hx
      · exact Knows.grow (h := .endpoint r) hv g
      · exact (ht.knows x hx).grow g
  | wildcard w =>
    obtain ⟨ho, hv⟩ : t.wildcards.Holds w := hl
    obtain ⟨hc, g⟩ := ht.recounted (t.share (.wildcard w)) ht.endpoints_exact
      (ht.wildcards_exact.share ho) (fun _ => rfl) (fun _ => rfl)
      (by simp [Interning.share]) (by simp [Interning.share])
    refine ⟨hc, ?_, ?_, ?_⟩
    · intro p
      have htally : (t.wildcards.share w.place).tally (·.place == p) =
          t.wildcards.tally (·.place == p) := Registry.tally_recount ho (by omega) _
      simp [Interning.share, ht.endpoint_owners p, htally, Handle.toEndpoint]
    · intro p
      have hp := ht.wildcard_owners p
      have hs := Registry.owners_share ho p
      simp only [Interning.share, List.countP_cons, Handle.toWildcard, beq_iff_eq]
      omega
    · intro x hx
      rcases List.mem_cons.1 hx with rfl | hx
      · exact Knows.grow (h := .wildcard w) hv g
      · exact (ht.knows x hx).grow g

/-! ## New cells -/

/-- The table with a cell for an endpoint whose text is free. -/
theorem Consistent.insertEndpoint (ht : t.Consistent) {i : Interned}
    (hfree : t.find? i.endpoint.canonical = none) (hi : t.MainKnown i) :
    Consistent { t with endpoints := (t.endpoints.insert i.endpoint.canonical i).2 } ∧
      t.Grows { t with endpoints := (t.endpoints.insert i.endpoint.canonical i).2 } := by
  have g : t.Grows { t with endpoints := (t.endpoints.insert i.endpoint.canonical i).2 } :=
    ⟨fun h => Registry.value?_insert_of_eq_some h _ _, fun h => h⟩
  refine ⟨⟨ht.endpoints_exact.insert hfree i, ht.wildcards_exact, ?_, ?_⟩, g⟩
  · intro p v hv
    dsimp only at hv ⊢
    rw [Registry.value?_insert] at hv
    rw [Registry.key?_insert]
    split at hv
    · rename_i hp
      cases hv
      exact ⟨if_pos hp, hi.grow g⟩
    · rename_i hp
      rw [if_neg hp]
      obtain ⟨hk, hm⟩ := ht.interned hv
      exact ⟨hk, hm.grow g⟩
  · intro p r hr
    obtain ⟨hk, hm⟩ := ht.covered hr
    exact ⟨hk, hm.grow g⟩

/-- The table with a cell for a wildcard over an endpoint that has none. -/
theorem Consistent.insertWildcard (ht : t.Consistent) {r : EndpointRef}
    (hfree : t.wildcards.find? r.canonical = none) (hr : t.Knows (.endpoint r)) :
    Consistent { t with wildcards := (t.wildcards.insert r.canonical r).2 } ∧
      t.Grows { t with wildcards := (t.wildcards.insert r.canonical r).2 } := by
  have g : t.Grows { t with wildcards := (t.wildcards.insert r.canonical r).2 } :=
    ⟨fun h => h, fun h => Registry.value?_insert_of_eq_some h _ _⟩
  refine ⟨⟨ht.endpoints_exact, ht.wildcards_exact.insert hfree r, ?_, ?_⟩, g⟩
  · intro p i hi
    obtain ⟨hk, hm⟩ := ht.interned hi
    exact ⟨hk, hm.grow g⟩
  · intro p v hv
    dsimp only at hv ⊢
    rw [Registry.value?_insert] at hv
    rw [Registry.key?_insert]
    split at hv
    · rename_i hp
      cases hv
      exact ⟨if_pos hp, hr.grow g⟩
    · rename_i hp
      rw [if_neg hp]
      obtain ⟨hk, hm⟩ := ht.covered hv
      exact ⟨hk, hm.grow g⟩

/-- A new endpoint takes the handle to its main endpoint, and the first handle to it is held. -/
theorem Owned.insertEndpoint {i : Interned} (ht : t.Owned (i.handles ++ held))
    (hfree : t.find? i.endpoint.canonical = none) (hi : t.MainKnown i) :
    Owned { t with endpoints := (t.endpoints.insert i.endpoint.canonical i).2 }
      (.endpoint (t.endpoints.insert i.endpoint.canonical i).1 :: held) := by
  obtain ⟨hc, g⟩ := ht.toConsistent.insertEndpoint hfree hi
  refine ⟨hc, ?_, ?_, ?_⟩
  · intro p
    have hp := ht.endpoint_owners p
    have h0 := t.endpoints.owners_length
    rw [List.countP_append, Interned.countP_handles] at hp
    simp only [Registry.owners_insert, Registry.tally_insert, List.countP_cons, Handle.toEndpoint,
      Registry.place_insert, beq_iff_eq]
    by_cases hl : p = t.endpoints.cells.length
    · subst hl
      simp only [if_true]
      omega
    · rw [if_neg hl, if_neg (Ne.symm hl)]
      omega
  · intro p
    have hp := ht.wildcard_owners p
    rw [List.countP_append, Interned.countP_handles_toWildcard] at hp
    simp only [List.countP_cons, Handle.toWildcard]
    simpa using hp
  · intro x hx
    rcases List.mem_cons.1 hx with rfl | hx
    · show Registry.value? _ _ = _
      rw [Registry.value?_insert]
      exact if_pos rfl
    · exact (ht.knows x (List.mem_append_right _ hx)).grow g

/-- A new wildcard takes a handle to its endpoint, and the first handle to it is held. -/
theorem Owned.insertWildcard {r : EndpointRef} (ht : t.Owned (.endpoint r :: held))
    (hfree : t.wildcards.find? r.canonical = none) :
    Owned { t with wildcards := (t.wildcards.insert r.canonical r).2 }
      (.wildcard (t.wildcards.insert r.canonical r).1 :: held) := by
  obtain ⟨hc, g⟩ := ht.toConsistent.insertWildcard hfree (ht.knows _ List.mem_cons_self)
  refine ⟨hc, ?_, ?_, ?_⟩
  · intro p
    have hp := ht.endpoint_owners p
    simp only [List.countP_cons, Handle.toEndpoint, Registry.tally_insert, beq_iff_eq,
      Bool.false_eq_true, if_false] at hp ⊢
    omega
  · intro p
    have hp := ht.wildcard_owners p
    have h0 := t.wildcards.owners_length
    simp only [List.countP_cons, Handle.toWildcard, Bool.false_eq_true, if_false] at hp
    simp only [Registry.owners_insert, List.countP_cons, Handle.toWildcard, Registry.place_insert,
      beq_iff_eq]
    by_cases hl : p = t.wildcards.cells.length
    · subst hl
      simp only [if_true]
      omega
    · rw [if_neg hl, if_neg (Ne.symm hl)]
      omega
  · intro x hx
    rcases List.mem_cons.1 hx with rfl | hx
    · show Registry.value? _ _ = _
      rw [Registry.value?_insert]
      exact if_pos rfl
    · exact (ht.knows x (List.mem_cons_of_mem _ hx)).grow g

/-! ## Giving back -/

/-- A wildcard that dies hands on its handle to the endpoint. -/
def covers : Option EndpointRef → List Handle
  | some r => [.endpoint r]
  | none => []

/-- An endpoint that dies hands on its handle to the main endpoint. -/
def mains : Option Interned → List Handle
  | some i => i.handles
  | none => []

theorem Owned.dropEndpointCell {r : EndpointRef} (ht : t.Owned (.endpoint r :: held)) :
    Owned { t with endpoints := (t.endpoints.drop r.place).2 }
      (mains (t.endpoints.drop r.place).1 ++ held) := by
  obtain ⟨ho, hv⟩ : t.endpoints.Holds r := ht.live List.mem_cons_self
  obtain ⟨hc, g⟩ := ht.recounted { t with endpoints := (t.endpoints.drop r.place).2 }
    (ht.endpoints_exact.drop ho) ht.wildcards_exact (by simp) (by simp)
    (fun _ => rfl) (fun _ => rfl)
  have hheld : ∀ x ∈ held, Knows { t with endpoints := (t.endpoints.drop r.place).2 } x :=
    fun x hx => (ht.knows x (List.mem_cons_of_mem _ hx)).grow g
  rcases Nat.lt_or_ge 1 (t.endpoints.owners r.place) with h1 | h1
  · -- somebody else owns the endpoint
    have hfst : (t.endpoints.drop r.place).1 = none := by
      rw [Registry.drop_of_one_lt_owners h1]
    rw [hfst]
    refine ⟨hc, ?_, ?_, hheld⟩
    · intro p
      have hp := ht.endpoint_owners p
      have hd := Registry.owners_drop ho p
      have htally : (t.endpoints.drop r.place).2.tally (Interned.ownsMain p) =
          t.endpoints.tally (Interned.ownsMain p) := by
        rw [Registry.drop_of_one_lt_owners h1]
        exact Registry.tally_recount ho (by omega) _
      simp only [List.countP_cons, Handle.toEndpoint, beq_iff_eq] at hp
      simp only [mains, List.nil_append]
      omega
    · intro p
      have hp := ht.wildcard_owners p
      simpa [Handle.toWildcard, mains] using hp
  · -- it was the last handle
    have ho1 : t.endpoints.owners r.place = 1 := by omega
    have hfst : (t.endpoints.drop r.place).1 = some r.value := by
      rw [Registry.drop_of_owners_eq_one ho1 (ht.interned hv).1 hv]
    rw [hfst]
    refine ⟨hc, ?_, ?_, ?_⟩
    · intro p
      have hp := ht.endpoint_owners p
      have hd := Registry.owners_drop ho p
      have htally := Registry.tally_drop_last ho1 hv (Interned.ownsMain p)
      simp only [List.countP_cons, Handle.toEndpoint, beq_iff_eq] at hp
      simp only [mains, List.countP_append, Interned.countP_handles]
      omega
    · intro p
      have hp := ht.wildcard_owners p
      simp only [mains, List.countP_append, Interned.countP_handles_toWildcard]
      simpa [Handle.toWildcard] using hp
    · intro x hx
      rcases List.mem_append.1 hx with hx | hx
      · have hm := (ht.interned hv).2
        obtain ⟨m, hm', rfl⟩ := List.mem_map.1 hx
        unfold MainKnown at hm
        rw [Option.mem_toList.1 hm'] at hm
        exact hm.2.2.grow g
      · exact hheld x hx

theorem Owned.dropWildcardCell {w : WildcardRef} (ht : t.Owned (.wildcard w :: held)) :
    Owned { t with wildcards := (t.wildcards.drop w.place).2 }
      (covers (t.wildcards.drop w.place).1 ++ held) := by
  obtain ⟨ho, hv⟩ : t.wildcards.Holds w := ht.live List.mem_cons_self
  obtain ⟨hc, g⟩ := ht.recounted { t with wildcards := (t.wildcards.drop w.place).2 }
    ht.endpoints_exact (ht.wildcards_exact.drop ho) (fun _ => rfl) (fun _ => rfl)
    (by simp) (by simp)
  have hheld : ∀ x ∈ held, Knows { t with wildcards := (t.wildcards.drop w.place).2 } x :=
    fun x hx => (ht.knows x (List.mem_cons_of_mem _ hx)).grow g
  rcases Nat.lt_or_ge 1 (t.wildcards.owners w.place) with h1 | h1
  · have hfst : (t.wildcards.drop w.place).1 = none := by
      rw [Registry.drop_of_one_lt_owners h1]
    rw [hfst]
    refine ⟨hc, ?_, ?_, hheld⟩
    · intro p
      have hp := ht.endpoint_owners p
      have htally : (t.wildcards.drop w.place).2.tally (·.place == p) =
          t.wildcards.tally (·.place == p) := by
        rw [Registry.drop_of_one_lt_owners h1]
        exact Registry.tally_recount (f := (· - 1)) ho (by omega) _
      simp only [List.countP_cons, Handle.toEndpoint, Bool.false_eq_true, if_false] at hp
      simp only [covers, List.nil_append]
      omega
    · intro p
      have hp := ht.wildcard_owners p
      have hd := Registry.owners_drop ho p
      simp only [List.countP_cons, Handle.toWildcard, beq_iff_eq] at hp
      simp only [covers, List.nil_append]
      omega
  · have ho1 : t.wildcards.owners w.place = 1 := by omega
    have hfst : (t.wildcards.drop w.place).1 = some w.value := by
      rw [Registry.drop_of_owners_eq_one ho1 (ht.covered hv).1 hv]
    rw [hfst]
    refine ⟨hc, ?_, ?_, ?_⟩
    · intro p
      have hp := ht.endpoint_owners p
      have htally := Registry.tally_drop_last ho1 hv (·.place == p)
      simp only [beq_iff_eq] at htally
      simp only [List.countP_cons, Handle.toEndpoint, Bool.false_eq_true, if_false] at hp
      simp only [covers, List.singleton_append, List.countP_cons, Handle.toEndpoint, beq_iff_eq]
      omega
    · intro p
      have hp := ht.wildcard_owners p
      have hd := Registry.owners_drop ho p
      simp only [List.countP_cons, Handle.toWildcard, beq_iff_eq] at hp
      simp only [covers, List.singleton_append, List.countP_cons, Handle.toWildcard,
        Bool.false_eq_true, if_false]
      omega
    · intro x hx
      rcases List.mem_cons.1 hx with rfl | hx
      · exact (ht.covered hv).2.grow g
      · exact hheld x hx

/-- A main endpoint owns nothing, so nothing else dies with it. -/
theorem Owned.dropMain {m : Ref Endpoint} (ht : t.Owned (.endpoint (.ofMain m) :: held)) :
    Owned { t with endpoints := (t.endpoints.drop m.place).2 } held := by
  have hd := ht.dropEndpointCell
  have hv : t.endpoints.value? m.place = some ⟨m.value, none⟩ := ht.knows _ List.mem_cons_self
  have hmains : mains (t.endpoints.drop m.place).1 = [] := by
    cases hfst : (t.endpoints.drop m.place).1 with
    | none => rfl
    | some i =>
      have hi := Registry.value?_of_drop hfst
      rw [hv] at hi
      cases hi
      rfl
  simpa [Ref.ofMain, hmains] using hd

theorem Owned.dropEndpoint {r : EndpointRef} (ht : t.Owned (.endpoint r :: held)) :
    (t.dropEndpoint r).Owned held := by
  have hd := ht.dropEndpointCell
  unfold Interning.dropEndpoint
  split
  · rename_i e m endpoints heq
    rw [heq] at hd
    exact hd.dropMain
  · rename_i o endpoints hne heq
    rw [heq] at hd
    -- whatever died had no main endpoint
    have hmains : mains o = [] := by
      rcases o with _ | ⟨e, _ | m⟩
      · rfl
      · rfl
      · exact (hne e m rfl).elim
    simpa [hmains] using hd

theorem Owned.drop {h : Handle} (ht : t.Owned (h :: held)) : (t.drop h).Owned held := by
  cases h with
  | endpoint r => exact ht.dropEndpoint
  | wildcard w =>
    have hd := ht.dropWildcardCell
    dsimp only [Interning.drop]
    split
    · rename_i r wildcards heq
      rw [heq] at hd
      exact hd.dropEndpoint
    · rename_i wildcards heq
      rw [heq] at hd
      exact hd

/-! ## One cell for each text -/

theorem Owned.eq_of_canonical (ht : t.Owned held) {a b : EndpointRef}
    (ha : t.Live (.endpoint a)) (hb : t.Live (.endpoint b)) (h : a.canonical = b.canonical) :
    a = b := by
  have h1 := ht.find?_eq_some_iff.2 ⟨ha, h⟩
  have h2 := ht.find?_eq_some_iff.2 ⟨hb, rfl⟩
  rw [h1] at h2
  exact Option.some.inj h2

/-- Handles to endpoints are the same when they are written alike. -/
theorem Owned.same_endpoint_iff (ht : t.Owned held) {a b : EndpointRef}
    (ha : t.Live (.endpoint a)) (hb : t.Live (.endpoint b)) :
    a.same b = true ↔ a.canonical = b.canonical :=
  (Registry.Holds.same_iff ha hb).trans
    ⟨congrArg Ref.canonical, ht.eq_of_canonical ha hb⟩

/-- There is one wildcard over an endpoint. -/
theorem Owned.same_wildcard_iff (ht : t.Owned held) {v w : WildcardRef}
    (hv : t.Live (.wildcard v)) (hw : t.Live (.wildcard w)) :
    v.same w = true ↔ v.value = w.value := by
  rw [Registry.Holds.same_iff hv hw]
  constructor
  · exact congrArg Ref.value
  · intro h
    have h1 := ht.find?_wildcard_eq_some_iff.2 ⟨hv, rfl⟩
    have h2 := ht.find?_wildcard_eq_some_iff.2 ⟨hw, rfl⟩
    rw [h, h2] at h1
    exact (Option.some.inj h1).symm

/-! ## Everything alive is held -/

theorem Owned.mem_of_live_wildcard (ht : t.Owned held) {w : WildcardRef}
    (hw : t.Live (.wildcard w)) : .wildcard w ∈ held := by
  have hpos : 0 < t.wildcards.owners w.place := hw.1
  rw [ht.wildcard_owners] at hpos
  obtain ⟨x, hx, hto⟩ := List.countP_pos_iff.1 hpos
  cases x with
  | endpoint r => cases hto
  | wildcard v =>
    have hplace : v.place = w.place := by simpa [Handle.toWildcard] using hto
    rw [← Registry.Holds.eq_of_place (ht.live hx) hw hplace]
    exact hx

/-- An owner of an endpoint is a handle, a wildcard that is held, or an endpoint with an
instance. -/
theorem Owned.owner_of_live (ht : t.Owned held) {r : EndpointRef} (hr : t.Live (.endpoint r)) :
    (∃ x ∈ held, x.subject = r) ∨
      ∃ s : EndpointRef, t.Live (.endpoint s) ∧ s.endpoint.isMain = false ∧ s.main = r := by
  have hpos : 0 < t.endpoints.owners r.place := hr.1
  rw [ht.endpoint_owners] at hpos
  have hsome : 0 < held.countP (Handle.toEndpoint r.place) ∨
      0 < t.endpoints.tally (Interned.ownsMain r.place) ∨
      0 < t.wildcards.tally (·.place == r.place) := by omega
  rcases hsome with h | h | h
  · obtain ⟨x, hx, hto⟩ := List.countP_pos_iff.1 h
    left
    refine ⟨x, hx, ?_⟩
    cases x with
    | endpoint s =>
      have hplace : s.place = r.place := by simpa [Handle.toEndpoint] using hto
      exact Registry.Holds.eq_of_place (ht.live hx) hr hplace
    | wildcard w => cases hto
  · obtain ⟨place, i, ho, hv, howns⟩ := Registry.tally_pos_iff.1 h
    right
    have hs : t.Live (.endpoint ⟨place, i⟩) := ⟨ho, hv⟩
    have hm := (ht.interned hv).2
    unfold MainKnown at hm
    unfold Interned.ownsMain at howns
    split at hm
    · rename_i hnone
      rw [hnone] at howns
      cases howns
    · rename_i m hsome
      rw [hsome] at howns
      refine ⟨⟨place, i⟩, hs, hm.1, ?_⟩
      refine Registry.Holds.eq_of_place (ht.live_main hs) hr ?_
      simpa [Ref.main, hsome, Ref.ofMain] using howns
  · obtain ⟨place, s, ho, hv, hplace⟩ := Registry.tally_pos_iff.1 h
    left
    have hw : t.Live (.wildcard ⟨place, s⟩) := ⟨ho, hv⟩
    refine ⟨_, ht.mem_of_live_wildcard hw, ?_⟩
    have hsame : s.place = r.place := by simpa using hplace
    exact Registry.Holds.eq_of_place (ht.live_covered hw) hr hsame

theorem Owned.live_subject (ht : t.Owned held) {x : Handle} (hx : x ∈ held) :
    t.Live (.endpoint x.subject) := by
  cases x with
  | endpoint r => exact ht.live hx
  | wildcard w => exact ht.live_covered (ht.live hx)

theorem Owned.isMain_main (ht : t.Owned held) {r : EndpointRef} (hr : t.Live (.endpoint r)) :
    r.main.endpoint.isMain = true :=
  Endpoint.isMain_of_canonical_eq (ht.canonical_main hr)

/-- Alive are the endpoints that handles are about, and their main endpoints. -/
theorem Owned.live_iff (ht : t.Owned held) {r : EndpointRef} :
    t.Live (.endpoint r) ↔ ∃ x ∈ held, r = x.subject ∨ r = x.subject.main := by
  constructor
  · intro hr
    rcases ht.owner_of_live hr with ⟨x, hx, rfl⟩ | ⟨s, hs, hinst, rfl⟩
    · exact ⟨x, hx, .inl rfl⟩
    · -- the owner has an instance, so it is nobody's main endpoint
      rcases ht.owner_of_live hs with ⟨x, hx, rfl⟩ | ⟨s', hs', -, rfl⟩
      · exact ⟨x, hx, .inr rfl⟩
      · rw [ht.isMain_main hs'] at hinst
        cases hinst
  · rintro ⟨x, hx, rfl | rfl⟩
    · exact ht.live_subject hx
    · exact ht.live_main (ht.live_subject hx)

end Interning

end Dxb
