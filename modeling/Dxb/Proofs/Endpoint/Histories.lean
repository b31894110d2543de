import Dxb.Endpoint.Holdings
import Dxb.Proofs.Endpoint.Building

/-!
# Handles after any steps

`Valid h` says that slots have different names and that the handles in them, with those to the
permanent endpoints that were used, are all the handles outside of the interning table.  Every step
keeps this (`Valid.step`), so after any steps the table and the handles agree
(`interning_faithful`).
-/

namespace Dxb

/-- What a permanent endpoint is interned under. -/
def Permanent.text (p : Permanent) : String := p.endpoint.canonical

namespace Holdings

open Interning

variable {h : Holdings}

/-- The handles that are never given back. -/
def permanents (h : Holdings) : List Handle := h.used.map fun u => .endpoint u.2

/-- All handles there are outside of the table. -/
def held (h : Holdings) : List Handle := h.permanents ++ h.handles

/-- The endpoints that handles lead to, each with its main endpoint. -/
def reachable (h : Holdings) : List EndpointRef :=
  h.held.flatMap fun x => [x.subject, x.subject.main]

structure Valid (h : Holdings) : Prop where
  owned : h.table.Owned h.held
  nodup : (h.slots.map (·.1)).Nodup
  /-- What was made on the first use of a permanent endpoint has its text. -/
  used_text : ∀ u ∈ h.used, u.2.canonical = u.1.text

theorem valid_empty : empty.Valid := ⟨owned_empty, List.nodup_nil, List.forall_mem_nil _⟩

/-! ## Slots -/

theorem filter_slot_eq {slots : List (String × Handle)} {slot : String}
    (hs : slot ∉ slots.map (·.1)) : slots.filter (·.1 != slot) = slots := by
  apply List.filter_eq_self.2
  intro x hx
  have hne : x.1 ≠ slot := fun h => hs (List.mem_map.2 ⟨x, hx, h⟩)
  simpa using hne

/-- A slot and the other ones. -/
theorem perm_of_get? (hn : (h.slots.map (·.1)).Nodup) {slot : String} {x : Handle}
    (hx : h.get? slot = some x) :
    h.slots.Perm ((slot, x) :: h.slots.filter (·.1 != slot)) := by
  obtain ⟨table, used, slots⟩ := h
  unfold get? at hx
  dsimp only at hn hx ⊢
  induction slots with
  | nil => cases hx
  | cons entry slots ih =>
    obtain ⟨name, y⟩ := entry
    rw [List.map_cons, List.nodup_cons] at hn
    rw [List.find?_cons] at hx
    by_cases hname : name = slot
    · subst hname
      simp only [beq_self_eq_true, Option.map_some, Option.some.injEq] at hx
      subst hx
      have hrest := filter_slot_eq hn.1
      simp only [List.filter_cons, bne_self_eq_false, Bool.false_eq_true, if_false, hrest]
      exact List.Perm.refl _
    · have hbeq : (name == slot) = false := by simpa using hname
      have hbne : (name != slot) = true := by simpa using hname
      rw [hbeq] at hx
      rw [List.filter_cons, if_pos hbne]
      exact ((ih hn.2 hx).cons _).trans (List.Perm.swap _ _ _)

theorem not_mem_slots_of_get? {slot : String} (hx : h.get? slot = none) :
    slot ∉ h.slots.map (·.1) := by
  intro hm
  obtain ⟨entry, he, rfl⟩ := List.mem_map.1 hm
  have hnone := List.find?_eq_none.1 (Option.map_eq_none_iff.1 hx) entry he
  simp at hnone

theorem mem_held_of_get? {slot : String} {x : Handle} (hx : h.get? slot = some x) :
    x ∈ h.held := by
  obtain ⟨entry, he, rfl⟩ := Option.map_eq_some_iff.1 hx
  have hm : entry.2 ∈ h.handles := List.mem_map.2 ⟨entry, List.mem_of_find?_eq_some he, rfl⟩
  exact List.mem_append_right _ hm

/-- The handle in a slot, in front of all others. -/
theorem perm_held_of_get? (hn : (h.slots.map (·.1)).Nodup) {slot : String} {x : Handle}
    (hx : h.get? slot = some x) :
    h.held.Perm (x :: held ⟨h.table.drop x, h.used, h.slots.filter (·.1 != slot)⟩) := by
  have hp := (perm_of_get? hn hx).map (fun entry => entry.2)
  exact (hp.append_left h.permanents).trans List.perm_middle

theorem slot_not_mem_drop (slot : String) : slot ∉ (h.drop slot).2.slots.map (·.1) := by
  unfold Holdings.drop
  split
  · intro hm
    obtain ⟨entry, he, hslot⟩ := List.mem_map.1 hm
    have hne := (List.mem_filter.1 he).2
    simp [hslot] at hne
  · rename_i hx
    exact not_mem_slots_of_get? hx

/-! ## Every step keeps validity -/

/-- Emptying a slot gives back the handle in it, and no other one. -/
theorem owned_drop (others : List Handle) (ho : h.table.Owned (others ++ h.held))
    (hn : (h.slots.map (·.1)).Nodup) (slot : String) :
    (h.drop slot).2.table.Owned (others ++ (h.drop slot).2.held) ∧
      ((h.drop slot).2.slots.map (·.1)).Nodup := by
  unfold Holdings.drop
  split
  · rename_i x hx
    refine ⟨?_, hn.sublist (List.filter_sublist.map _)⟩
    have hp := ((perm_held_of_get? hn hx).append_left others).trans List.perm_middle
    exact (ho.perm hp).drop
  · exact ⟨ho, hn⟩

@[simp] theorem used_drop (h : Holdings) (slot : String) : (h.drop slot).2.used = h.used := by
  unfold Holdings.drop
  split <;> rfl

@[simp] theorem used_store (h : Holdings) (slot : String) (made : Handle) :
    (h.store slot made).used = h.used := used_drop h slot

theorem Valid.drop (hv : h.Valid) (slot : String) : (h.drop slot).2.Valid := by
  obtain ⟨ho, hn⟩ := owned_drop [] hv.owned hv.nodup slot
  exact ⟨ho, hn, by rw [used_drop]; exact hv.used_text⟩

/-- Storing a handle that nobody holds yet. -/
theorem Valid.store {table : Interning} {made : Handle} (hv : h.Valid)
    (ho : table.Owned (made :: h.held)) (slot : String) :
    (Holdings.store { h with table } slot made).Valid := by
  obtain ⟨howned, hnodup⟩ := owned_drop (h := { h with table }) [made] ho hv.nodup slot
  refine ⟨?_, ?_, by rw [used_store]; exact hv.used_text⟩
  · have hheld : (Holdings.store { h with table } slot made).held =
        (Holdings.drop { h with table } slot).2.held ++ [made] := by
      simp [held, permanents, Holdings.store, handles]
    rw [hheld]
    exact howned.perm List.perm_append_comm
  · show (((Holdings.drop { h with table } slot).2.slots ++ [(slot, made)]).map (·.1)).Nodup
    rw [List.map_append, List.map_singleton]
    refine List.nodup_append.2 ⟨hnodup, by simp, ?_⟩
    rintro a ha b hb rfl
    rw [List.mem_singleton.1 hb] at ha
    exact slot_not_mem_drop slot ha

/-- A permanent endpoint is made on its first use, and then the same handle is used again. -/
theorem Valid.force (hv : h.Valid) (p : Permanent) :
    (h.force p).2.Valid ∧ (p, (h.force p).1) ∈ (h.force p).2.used := by
  unfold Holdings.force
  cases hused : h.used.lookup p with
  | some r =>
    obtain ⟨before, after, hsplit, -⟩ := List.lookup_eq_some_iff.1 hused
    rw [hsplit]
    exact ⟨hv, List.mem_append_right before List.mem_cons_self⟩
  | none =>
    refine ⟨⟨hv.owned.build p.endpoint, hv.nodup, ?_⟩, List.mem_cons_self⟩
    intro u hu
    rcases List.mem_cons.1 hu with rfl | hu
    · exact hv.owned.canonical_build p.endpoint
    · exact hv.used_text u hu

theorem Valid.live_force (hv : h.Valid) (p : Permanent) :
    (h.force p).2.table.Live (.endpoint (h.force p).1) ∧ (h.force p).1.canonical = p.text := by
  obtain ⟨hforced, hmem⟩ := hv.force p
  refine ⟨hforced.owned.live (List.mem_append_left _ ?_), hforced.used_text _ hmem⟩
  exact List.mem_map_of_mem hmem

theorem Valid.use (hv : h.Valid) (slot : Option String) (p : Permanent) :
    (h.use slot p).Valid := by
  have hforced := (hv.force p).1
  cases slot with
  | some slot => exact hforced.store (hforced.owned.share (hv.live_force p).1) slot
  | none => exact hforced

theorem Valid.satisfies (hv : h.Valid) (value filter : Handle) :
    (h.satisfies value filter).2.Valid := by
  cases filter with
  | endpoint f => exact (hv.force .everyone).1
  | wildcard w => exact hv

theorem Valid.compare (hv : h.Valid) (value filter : String) :
    (h.compare value filter).2.Valid := by
  unfold Holdings.compare
  split
  · exact hv.satisfies _ _
  · exact hv
  · exact hv

/-- What is made from the handle in a slot is made from a handle that is held. -/
theorem exists_held_of_filled {β : Type} {source : String} {f : Handle → Except HoldingFault β}
    {b : β} (hb : (h.filled source >>= f) = .ok b) : ∃ x ∈ h.held, f x = .ok b := by
  unfold filled at hb
  split at hb
  · rename_i x hx
    exact ⟨x, mem_held_of_get? hx, hb⟩
  · cases hb

theorem target_of_requestTarget {t : Except EndpointError Target} {request : HandleRequest}
    (hr : requestTarget t = .ok request) : ∃ target, t = .ok target ∧ request = .target target := by
  cases t with
  | error e => cases hr
  | ok target =>
    cases hr
    exact ⟨target, rfl, rfl⟩

theorem Valid.grantable (hv : h.Valid) {m : Making} {request : HandleRequest}
    (hr : h.request m = .ok request) : h.table.Grantable request := by
  have target_ok : ∀ {t : Except EndpointError Target}, requestTarget t = .ok request →
      h.table.Grantable request := by
    intro t ht
    obtain ⟨target, -, rfl⟩ := target_of_requestTarget ht
    exact trivial
  cases m with
  | parse text => exact target_ok hr
  | ofName kind name inst => exact target_ok hr
  | ofBytes kind name inst => exact target_ok hr
  | parseTarget text hint inst => exact target_ok hr
  | decode opcode bytes =>
    simp only [Holdings.request] at hr
    cases hd : decodeTarget opcode bytes with
    | error e =>
      rw [hd] at hr
      cases hr
    | ok target =>
      rw [hd] at hr
      cases hr
      exact trivial
  | main source =>
    obtain ⟨x, hx, hb⟩ := exists_held_of_filled hr
    cases hb
    exact hv.owned.live_main (hv.owned.live_subject hx)
  | withInstance source inst =>
    obtain ⟨x, -, hb⟩ := exists_held_of_filled hr
    exact target_ok hb
  | copy source =>
    obtain ⟨x, hx, hb⟩ := exists_held_of_filled hr
    cases hb
    exact hv.owned.live hx
  | wildcard source =>
    obtain ⟨x, hx, hb⟩ := exists_held_of_filled hr
    cases hb
    exact hv.owned.live_subject hx
  | subject source =>
    obtain ⟨x, hx, hb⟩ := exists_held_of_filled hr
    cases hb
    exact hv.owned.live_subject hx

theorem Valid.make (hv : h.Valid) (slot : Option String) (m : Making) :
    (h.make slot m).2.Valid := by
  unfold Holdings.make
  split
  · exact hv
  · rename_i request hr
    have hg := hv.owned.grant (hv.grantable hr)
    cases slot with
    | some slot => exact hv.store hg slot
    | none => exact ⟨hg.drop, hv.nodup, hv.used_text⟩

theorem Valid.step (hv : h.Valid) (s : HoldingStep) : (h.step s).Valid := by
  cases s with
  | make slot m => exact hv.make slot m
  | use slot p => exact hv.use slot p
  | compare value filter => exact hv.compare value filter
  | drop slot => exact hv.drop slot

theorem Valid.run (hv : h.Valid) (steps : List HoldingStep) : (h.run steps).Valid := by
  induction steps generalizing h with
  | nil => exact hv
  | cons s steps ih => exact ih (hv.step s)

theorem valid_run (steps : List HoldingStep) : (empty.run steps).Valid := valid_empty.run steps

/-! ## Permanent endpoints -/

theorem Valid.live_of_mem_reachable (hv : h.Valid) {r : EndpointRef} (hr : r ∈ h.reachable) :
    h.table.Live (.endpoint r) := by
  obtain ⟨x, hx, hm⟩ := List.mem_flatMap.1 hr
  refine hv.owned.live_iff.2 ⟨x, hx, ?_⟩
  simpa using hm

theorem Valid.exists_live (hv : h.Valid) {p : EndpointRef → Bool}
    (hp : h.reachable.any p = true) : ∃ r, h.table.Live (.endpoint r) ∧ p r = true := by
  obtain ⟨r, hr, hpr⟩ := List.any_eq_true.1 hp
  exact ⟨r, hv.live_of_mem_reachable hr, hpr⟩

/-- Nothing permanent is there before it is used. -/
example : (empty.run [.make (some "a") (.parse "@ann")]).table.isInterned "@@local" = false := by
  decide +kernel

end Holdings

end Dxb
