import Dxb.Proofs.Endpoint.Designators
import Dxb.Proofs.Endpoint.Histories
import Dxb.Proofs.Endpoint.NameSpelling

/-!
# Ways to ask for an endpoint

A name can be given as text or as the bytes of its slot, and an instance in five forms.  What
matters is the slot with its padding and the number of the instance: whoever gives the same in
another way gets the same endpoint (`ways_agree`).
-/

namespace Dxb

/-! ## Names as text and as bytes -/

namespace EndpointName

/-- A text and its bytes are the same name, if there is room for it. -/
theorem ofBytes?_utf8 {kind : EndpointKind} (hkind : kind ≠ .id) {name : String}
    (hlast : name.toList.getLast? ≠ some '\x00') (hlen : (utf8 name).length ≤ nameSlotSize) :
    ofBytes? kind (utf8 name) = ofText? kind name := by
  unfold ofBytes?
  rw [dif_pos hlen, NameSlot.trim_utf8 hlast, ofUtf8?_utf8]
  cases kind with
  | id => exact absurd rfl hkind
  | person | institution | bot => rfl

theorem length_le_of_ofText? {kind : EndpointKind} (hkind : kind ≠ .id) {name : String}
    {n : EndpointName} (h : ofText? kind name = .ok n) : (utf8 name).length ≤ nameSlotSize := by
  obtain ⟨bytes, hspelling, -⟩ := exists_ofText?_iff.1 ⟨n, h, rfl⟩
  cases hspelling with
  | text _ _ short => exact short
  | localId | anyId | hex => exact absurd rfl hkind

theorem toOption_ofBytes?_utf8 {kind : EndpointKind} (hkind : kind ≠ .id) {name : String}
    (hlast : name.toList.getLast? ≠ some '\x00') :
    (ofText? kind name).toOption = (ofBytes? kind (utf8 name)).toOption := by
  by_cases hlen : (utf8 name).length ≤ nameSlotSize
  · rw [ofBytes?_utf8 hkind hlast hlen]
  · rw [ofBytes?, dif_neg hlen]
    cases hread : ofText? kind name with
    | error fault => rfl
    | ok n => exact absurd (length_le_of_ofText? hkind hread) hlen

/-- Hex digits and the bytes they spell are the same id, or are too long as well. -/
theorem ofText?_hex {text : String} {bytes : List UInt8} (hne : bytes ≠ [])
    (h : text.toUpper = Hex.upper bytes) : ofText? .id text = ofBytes? .id bytes := by
  unfold ofText? ofBytes?
  simp only
  rw [idOfText?_of_decode? (Hex.decode?_eq_some_iff.2 h) hne]
  split <;> rfl

/-- The padding of a slot may be left out. -/
theorem ofBytes?_pad (kind : EndpointKind) (bytes : List UInt8)
    (h : bytes.length ≤ nameSlotSize) :
    ofBytes? kind (NameSlot.pad bytes h).bytes = ofBytes? kind bytes := by
  have hpadded : (NameSlot.pad bytes h).bytes.length ≤ nameSlotSize :=
    Nat.le_of_eq (NameSlot.pad bytes h).length_eq
  have htrim : NameSlot.trim (NameSlot.pad bytes h).bytes = NameSlot.trim bytes :=
    NameSlot.trim_append_zeros bytes _
  unfold ofBytes?
  rw [dif_pos hpadded, dif_pos h, NameSlot.pad_bytes, htrim]

end EndpointName

/-! ## Designators of an instance -/

namespace InstanceRef

/-- Two designators with which every way to build an endpoint ends in the same way. -/
def Alike (i j : InstanceRef) : Prop :=
  (∀ kind name, Endpoint.ofName? kind name i = Endpoint.ofName? kind name j) ∧
    (∀ kind bytes, Endpoint.ofBytes? kind bytes i = Endpoint.ofBytes? kind bytes j) ∧
      ∀ e : Endpoint, e.withInstance? i = e.withInstance? j

/-- A designator that nothing is wrong with, and with which main endpoints are built. -/
def GivesMain (i : InstanceRef) : Prop :=
  (∀ kind name, Endpoint.ofName? kind name i =
      (fun n => ⟨n, 0⟩) <$> EndpointName.ofText? kind name) ∧
    (∀ kind bytes, Endpoint.ofBytes? kind bytes i =
      (fun n => ⟨n, 0⟩) <$> EndpointName.ofBytes? kind bytes) ∧
      ∀ e : Endpoint, e.withInstance? i = .ok e.main

theorem alike_of_resolve? {i j : InstanceRef} (h : i.resolve? = j.resolve?) : i.Alike j := by
  unfold Alike Endpoint.ofName? Endpoint.ofBytes? Endpoint.withInstance?
  rw [h]
  exact ⟨fun _ _ => rfl, fun _ _ => rfl, fun _ => rfl⟩

theorem Designates.alike {i j : InstanceRef} {n : UInt16} (hi : i.Designates n)
    (hj : j.Designates n) : i.Alike j :=
  alike_of_resolve? ((resolve?_eq_ok_iff.2 hi).trans (resolve?_eq_ok_iff.2 hj).symm)

theorem givesMain_of_resolve? {i : InstanceRef} (h : i.resolve? = .ok 0) : i.GivesMain := by
  unfold GivesMain Endpoint.ofName? Endpoint.ofBytes? Endpoint.withInstance?
  rw [h]
  exact ⟨fun _ _ => rfl, fun _ _ => rfl, fun _ => rfl⟩

/-- What is written for no instance in particular. -/
theorem resolve?_of_unspecific {i : InstanceRef}
    (h : i ∈ [.main, .any, .text "", .text "*", .bytes []]) : i.resolve? = .ok 0 := by
  simp only [List.mem_cons, List.not_mem_nil, or_false] at h
  rcases h with rfl | rfl | rfl | rfl | rfl <;> rfl

end InstanceRef

theorem toOption_bind {ε α β : Type} (x : Except ε α) (f : α → Except ε β) :
    (x >>= f).toOption = x.toOption.bind fun a => (f a).toOption := by
  cases x <;> rfl

theorem Endpoint.toOption_ofName? {kind : EndpointKind} {name : String} {bytes : List UInt8}
    (h : (EndpointName.ofText? kind name).toOption = (EndpointName.ofBytes? kind bytes).toOption)
    (i : InstanceRef) : (ofName? kind name i).toOption = (ofBytes? kind bytes i).toOption := by
  unfold ofName? ofBytes?
  rw [toOption_bind, toOption_bind, h]

/-! ## Handles -/

namespace Interning

variable {t : Interning} {held : List Handle}

/-- Whatever the instance, there is one main endpoint. -/
theorem Owned.main_build (ht : t.Owned held) {r : EndpointRef} (hr : t.Live (.endpoint r))
    {e : Endpoint} (h : e.mainText = r.endpoint.mainText) : (t.build e).1.main = r.main := by
  have hb := ht.build e
  have hmade := hb.live List.mem_cons_self
  have hkept := ht.live_build hr e
  refine hb.eq_of_canonical (hb.live_main hmade) (hb.live_main hkept) ?_
  rw [hb.canonical_main hmade, hb.canonical_main hkept, ← h]
  exact (Endpoint.canonical_eq_iff_of_parts.1 (ht.canonical_build e)).1

theorem Owned.withInstance (ht : t.Owned held) {r : EndpointRef} (hr : t.Live (.endpoint r))
    {i : InstanceRef} {n : UInt16} (hi : i.Designates n) :
    ∃ e, r.endpoint.withInstance? i = .ok e ∧ (t.build e).1.main = r.main ∧
      (n = r.endpoint.inst → (t.build e).1 = r) ∧ (n = 0 → (t.build e).1 = r.main) := by
  refine ⟨{ r.endpoint with inst := n }, ?_, ht.main_build hr rfl, ?_, ?_⟩
  · rw [Endpoint.withInstance?, InstanceRef.resolve?_eq_ok_iff.2 hi]
    rfl
  · rintro rfl
    exact ht.build_eq_of_canonical hr rfl
  · rintro rfl
    refine ht.build_eq_of_canonical (ht.live_main hr) ?_
    rw [ht.canonical_main hr]
    exact r.endpoint.canonical_main

end Interning

namespace Holdings

/-- After any steps, it does not matter how an endpoint is asked for: a name as its text or as its
bytes, an id in hex or as bytes, with or without the padding, and its instance by any designator of
the same number.  While it is held, asking once more gives the same handle.  Endpoints that differ
in the instance only have the same main endpoint. -/
theorem ways_agree (steps : List HoldingStep) :
    let table := (empty.run steps).table
    (∀ kind name i, kind ≠ .id → name.toList.getLast? ≠ some '\x00' →
      (Endpoint.ofName? kind name i).toOption =
        (Endpoint.ofBytes? kind (utf8 name) i).toOption) ∧
    (∀ text bytes i, bytes ≠ [] → text.toUpper = Hex.upper bytes →
      Endpoint.ofName? .id text i = Endpoint.ofBytes? .id bytes i) ∧
    (∀ kind bytes other i (h : bytes.length ≤ nameSlotSize) (h' : other.length ≤ nameSlotSize),
      NameSlot.pad bytes h = NameSlot.pad other h' →
        Endpoint.ofBytes? kind bytes i = Endpoint.ofBytes? kind other i) ∧
    (∀ (i j : InstanceRef) n, i.Designates n → j.Designates n → i.Alike j) ∧
    (∀ i ∈ [.main, .any, .text "", .text "*", .bytes []], InstanceRef.GivesMain i) ∧
    (∀ e, ((table.build e).2.build e).1 = (table.build e).1) ∧
    ∀ r, table.Live (.endpoint r) → ∀ (i : InstanceRef) n, i.Designates n →
      ∃ e, r.endpoint.withInstance? i = .ok e ∧ (table.build e).1.main = r.main ∧
        (n = r.endpoint.inst → (table.build e).1 = r) ∧ (n = 0 → (table.build e).1 = r.main) := by
  have ho := (valid_run steps).owned
  refine ⟨?_, ?_, ?_, ?_, ?_, ?_, fun r hr i n hi => ho.withInstance hr hi⟩
  · intro kind name i hkind hlast
    exact Endpoint.toOption_ofName? (EndpointName.toOption_ofBytes?_utf8 hkind hlast) i
  · intro text bytes i hne h
    unfold Endpoint.ofName? Endpoint.ofBytes?
    rw [EndpointName.ofText?_hex hne h]
  · intro kind bytes other i h h' hpad
    unfold Endpoint.ofBytes?
    rw [← EndpointName.ofBytes?_pad kind bytes h, hpad, EndpointName.ofBytes?_pad]
  · exact fun i j n hi hj => hi.alike hj
  · exact fun i hi => InstanceRef.givesMain_of_resolve? (InstanceRef.resolve?_of_unspecific hi)
  · intro e
    have hb := ho.build e
    exact hb.build_eq_of_canonical (hb.live List.mem_cons_self) (ho.canonical_build e).symm

/-- Somebody uses an endpoint whose name fills the slot with fifteen characters. -/
def longNameInUse : List HoldingStep := [.make (some "a") (.parse "@constructéé-äbc/0102")]

/-- A name of eighteen bytes, an id in mixed case, and the instance by its two bytes. -/
theorem ways_agree_on_long_name :
    let table := (empty.run longNameInUse).table
    let designator := InstanceRef.bytes [1, 2]
    (utf8 "constructéé-äbc").length = nameSlotSize ∧
    (Endpoint.ofName? .bot "constructéé-äbc" designator).toOption =
      (Endpoint.ofBytes? .bot (utf8 "constructéé-äbc") designator).toOption ∧
    Endpoint.ofName? .id "0aFf" designator = Endpoint.ofBytes? .id [0x0a, 0xff] designator ∧
    Endpoint.ofBytes? .bot [120] designator = Endpoint.ofBytes? .bot [120, 0, 0] designator ∧
    designator.Alike (.text "102") ∧ InstanceRef.GivesMain .any ∧
    ∃ r : EndpointRef, r.canonical = "@constructéé-äbc/0102" ∧ ∃ e,
      r.endpoint.withInstance? designator = .ok e ∧ (table.build e).1 = r := by
  obtain ⟨htext, hid, hpad, hinst, hmain, -, hbuild⟩ := ways_agree longNameInUse
  have hbytes : (InstanceRef.bytes [1, 2]).Designates 0x0102 := .bytes (by decide) (by decide)
  have hdigits : (InstanceRef.text "102").Designates 0x0102 :=
    @InstanceRef.Designates.digits _ [1, 0, 2] _ (by decide) (by decide) (by decide) (by decide)
  have hused : (empty.run longNameInUse).reachable.any
      (fun r => r.canonical == "@constructéé-äbc/0102" && r.endpoint.inst == 0x0102) = true := by
    decide +kernel
  obtain ⟨r, hr, hfound⟩ := (valid_run longNameInUse).exists_live hused
  rw [Bool.and_eq_true, beq_iff_eq, beq_iff_eq] at hfound
  obtain ⟨e, he, -, hown, -⟩ := hbuild r hr _ _ hbytes
  exact ⟨by decide +kernel, htext _ _ _ (by decide) (by decide),
    hid _ _ _ (by decide) (Hex.decode?_eq_some_iff.1 (by decide)),
    hpad _ _ _ _ (by decide) (by decide) (by decide), hinst _ _ _ hbytes hdigits,
    hmain _ (by decide), r, hfound.1, e, he, hown hfound.2.symm⟩

end Holdings

end Dxb
