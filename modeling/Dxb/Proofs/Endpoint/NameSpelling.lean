import Mathlib.Tactic.SplitIfs
import Dxb.Proofs.Bytes.HexText
import Dxb.Proofs.Endpoint.Wire

/-!
# How names are written

The name of a person, an institution or a bot is its text; an id is one of two words, or pairs of
hex digits in either case.  `NameSpelling` says so, and what is written puts the bytes into the slot
of the name, with NULs behind them (`EndpointName.exists_ofText?_iff`).  The name is shown as a text
that is read as the same name (`EndpointName.ofText?_text`), and its kind and its slot are all that
there is to it (`EndpointName.eq_of_slot`).
-/

namespace Dxb

/-! ## Slots -/

namespace Hex

theorem not_mem_of_decode? {c : Char} (hc : c.toUpper = c) (h : ∀ n, n < 16 → digit 'A' n ≠ c)
    {text : String} {bytes : List UInt8} (hbytes : decode? text = some bytes) :
    c ∉ text.toList := by
  intro hmem
  have hupper := congrArg String.toList (decode?_eq_some_iff.1 hbytes)
  rw [String.toUpper, String.toList_map] at hupper
  have hmapped : c.toUpper ∈ text.toList.map Char.toUpper := List.mem_map.2 ⟨c, hmem, rfl⟩
  rw [hupper, hc] at hmapped
  exact not_mem_upper h bytes hmapped

end Hex

namespace NameSlot

/-- Bytes with as many NULs behind them as a slot has room for. -/
theorem bytes_pad (bytes : List UInt8) (h : bytes.length ≤ nameSlotSize) :
    (pad bytes h).bytes = bytes ++ List.replicate (nameSlotSize - bytes.length) 0 := rfl

theorem trim_append_zeros (bytes : List UInt8) (n : Nat) :
    trim (bytes ++ List.replicate n 0) = trim bytes := by
  have hzeros : ∀ b ∈ List.replicate n (0 : UInt8), (b == 0) = true := by
    intro b hb
    rw [List.eq_of_mem_replicate hb, beq_self_eq_true]
  rw [trim, List.reverse_append, List.reverse_replicate, List.dropWhile_append_of_pos hzeros, trim]

theorem length_trim_le (bytes : List UInt8) : (trim bytes).length ≤ bytes.length := by
  have hlen := congrArg List.length (trim_append_replicate bytes)
  rw [List.length_append] at hlen
  omega

theorem eq_of_bytes {a b : NameSlot} (h : a.bytes = b.bytes) : a = b := by
  cases a
  cases b
  cases h
  rfl

/-- An id is what its bytes up to the last one that is not zero fill a slot with. -/
theorem pad_trim (s : NameSlot) (h : (trim s.bytes).length ≤ nameSlotSize) :
    pad (trim s.bytes) h = s := by
  apply eq_of_bytes
  have htrim := trim_append_replicate s.bytes
  rwa [s.length_eq] at htrim

theorem trim_eq_nil_iff {s : NameSlot} : trim s.bytes = [] ↔ s = localId := by
  constructor
  · intro h
    apply eq_of_bytes
    have htrim := trim_append_replicate s.bytes
    rw [h, s.length_eq] at htrim
    exact htrim.symm
  · rintro rfl
    decide

end NameSlot

/-! ## Ids -/

namespace EndpointName

theorem idOfText?_of_decode? {text : String} {bytes : List UInt8}
    (h : Hex.decode? text = some bytes) (hne : bytes ≠ []) :
    idOfText? text = if hle : bytes.length ≤ nameSlotSize then .ok (NameSlot.pad bytes hle)
      else .error (.nameTooLong bytes.length nameSlotSize) := by
  have hne_word : ∀ word, Hex.decode? word = none → text ≠ word := by
    rintro word hnone rfl
    rw [hnone] at h
    cases h
  have hlocal : text ≠ "local" := hne_word _ (by decide)
  have hany : text ≠ "any" := hne_word _ (by decide)
  have hdot : '.' ∉ text.toList := Hex.not_mem_of_decode? (by decide) (by decide) h
  unfold idOfText?
  rw [if_neg hlocal, if_neg hany, if_neg hdot, h]
  cases bytes with
  | nil => exact absurd rfl hne
  | cons b rest => rfl

theorem idOfText?_idText (s : NameSlot) : idOfText? s.idText = .ok s := by
  unfold NameSlot.idText
  split
  · rename_i hlocal
    rw [hlocal]
    rfl
  · rename_i hlocal
    split
    · rename_i hany
      rw [hany]
      rfl
    · have hlen : (NameSlot.trim s.bytes).length ≤ nameSlotSize :=
        Nat.le_trans (NameSlot.length_trim_le _) (Nat.le_of_eq s.length_eq)
      rw [idOfText?_of_decode? (Hex.decode?_upper _) (mt NameSlot.trim_eq_nil_iff.1 hlocal),
        dif_pos hlen, NameSlot.pad_trim]

/-- The text of a name is read back. -/
theorem ofText?_text (n : EndpointName) : ofText? n.kind n.text = .ok n := by
  cases n with
  | person name | institution name | bot name =>
    simp only [ofText?, kind, text, name.ofText?_text]
    rfl
  | id slot =>
    simp only [ofText?, kind, text, idOfText?_idText]
    rfl

end EndpointName

/-! ## Spelling -/

/-- How a name is written behind the sigil of its kind, and which bytes it puts into its slot. -/
inductive NameSpelling : EndpointKind → String → List UInt8 → Prop
  /-- One to eighteen bytes of text without dot, slash or NUL. -/
  | text {kind : EndpointKind} {name : String} (kind_ne : kind ≠ .id) (pos : 0 < (utf8 name).length)
      (short : (utf8 name).length ≤ nameSlotSize)
      (clean : ∀ c ∈ name.toList, c ≠ '.' ∧ c ≠ '/' ∧ c ≠ '\x00') :
      NameSpelling kind name (utf8 name)
  | localId : NameSpelling .id "local" (List.replicate nameSlotSize 0x00)
  | anyId : NameSpelling .id "any" (List.replicate nameSlotSize 0xff)
  /-- One to eighteen pairs of hex digits in either case. -/
  | hex {name : String} {bytes : List UInt8} (digits : name.toUpper = Hex.upper bytes)
      (pos : 0 < bytes.length) (short : bytes.length ≤ nameSlotSize) :
      NameSpelling .id name bytes

theorem NameSpelling.slash_not_mem {kind : EndpointKind} {name : String} {bytes : List UInt8}
    (h : NameSpelling kind name bytes) : '/' ∉ name.toList := by
  cases h with
  | text _ _ _ clean => exact fun hmem => (clean _ hmem).2.1 rfl
  | localId | anyId => decide
  | hex digits =>
    exact Hex.not_mem_of_decode? (by decide) (by decide) (Hex.decode?_eq_some_iff.2 digits)

/-! ## Reading names -/

namespace TextName

theorem text_of_ofText? {text : String} {n : TextName} (h : ofText? text = .ok n) :
    n.text = text := by
  unfold ofText? at h
  split_ifs at h
  cases h
  rfl

theorem spelling (n : TextName) {kind : EndpointKind} (h : kind ≠ .id) :
    NameSpelling kind n.text (utf8 n.text) := by
  refine .text h ?_ n.short n.clean
  rw [length_utf8, Nat.pos_iff_ne_zero, Ne, String.utf8ByteSize_eq_zero_iff]
  exact n.nonempty

/-- What fills the slot of a person, an institution or a bot. -/
theorem exists_ofText?_iff {kind : EndpointKind} (h : kind ≠ .id) {name : String}
    {slot : NameSlot} :
    (∃ n : TextName, ofText? name = .ok n ∧ n.slot = slot) ↔
      ∃ bytes, NameSpelling kind name bytes ∧
        slot.bytes = bytes ++ List.replicate (nameSlotSize - bytes.length) 0 := by
  constructor
  · rintro ⟨n, hn, rfl⟩
    rw [← text_of_ofText? hn]
    exact ⟨_, n.spelling h, rfl⟩
  · rintro ⟨bytes, hspelling, hslot⟩
    cases hspelling with
    | text _ pos short clean =>
      rw [length_utf8, Nat.pos_iff_ne_zero, Ne, String.utf8ByteSize_eq_zero_iff] at pos
      let n : TextName := ⟨name, pos, clean, short⟩
      exact ⟨n, n.ofText?_text, NameSlot.eq_of_bytes hslot.symm⟩
    | localId | anyId | hex => exact absurd rfl h

theorem ofUtf8?_trim_slot (n : TextName) : ofUtf8? (NameSlot.trim n.slot.bytes) = some n.text := by
  rw [slot, NameSlot.bytes_pad, NameSlot.trim_append_zeros, n.trim_utf8, ofUtf8?_utf8]

theorem slot_injective {a b : TextName} (h : a.slot = b.slot) : a = b := by
  have ha := a.ofUtf8?_trim_slot
  rw [h, b.ofUtf8?_trim_slot] at ha
  exact TextName.eq_of_text (Option.some.inj ha).symm

end TextName

namespace EndpointName

theorem eq_of_slot {a b : EndpointName} (hkind : a.kind = b.kind) (h : a.slot = b.slot) :
    a = b := by
  cases a <;> cases b <;> cases hkind
  · exact congrArg person (TextName.slot_injective h)
  · exact congrArg institution (TextName.slot_injective h)
  · exact congrArg id h
  · exact congrArg bot (TextName.slot_injective h)

theorem idOfText?_eq_ok_iff {name : String} {slot : NameSlot} :
    idOfText? name = .ok slot ↔ ∃ bytes, NameSpelling .id name bytes ∧
      slot.bytes = bytes ++ List.replicate (nameSlotSize - bytes.length) 0 := by
  constructor
  · intro h
    unfold idOfText? at h
    split_ifs at h with hlocal hany hdot
    · cases h
      subst hlocal
      exact ⟨_, .localId, rfl⟩
    · cases h
      subst hany
      exact ⟨_, .anyId, rfl⟩
    · split at h
      · cases h
      · cases h
      · rename_i bytes hne hbytes
        split at h
        · rename_i hle
          cases h
          exact ⟨bytes, .hex (Hex.decode?_eq_some_iff.1 hbytes) (List.length_pos_iff.2 hne) hle,
            rfl⟩
        · cases h
  · rintro ⟨bytes, hspelling, hslot⟩
    cases hspelling with
    | text kind_ne => exact absurd rfl kind_ne
    | localId => exact congrArg Except.ok (NameSlot.eq_of_bytes hslot.symm)
    | anyId => exact congrArg Except.ok (NameSlot.eq_of_bytes hslot.symm)
    | hex digits pos short =>
      rw [idOfText?_of_decode? (Hex.decode?_eq_some_iff.2 digits) (List.length_pos_iff.1 pos),
        dif_pos short]
      exact congrArg Except.ok (NameSlot.eq_of_bytes hslot.symm)

theorem kind_of_ofText? {kind : EndpointKind} {name : String} {n : EndpointName}
    (h : ofText? kind name = .ok n) : n.kind = kind := by
  unfold ofText? at h
  cases kind <;> (obtain ⟨m, -, rfl⟩ := map_eq_ok_iff.1 h; rfl)

/-- What fills the slot of a name. -/
theorem exists_ofText?_iff {kind : EndpointKind} {name : String} {slot : NameSlot} :
    (∃ n, ofText? kind name = .ok n ∧ n.slot = slot) ↔
      ∃ bytes, NameSpelling kind name bytes ∧
        slot.bytes = bytes ++ List.replicate (nameSlotSize - bytes.length) 0 := by
  have hmap : ∀ {α : Type} {x : Except EndpointError α} {f : α → EndpointName},
      (∃ n, f <$> x = .ok n ∧ n.slot = slot) ↔ ∃ m, x = .ok m ∧ (f m).slot = slot := by
    intro α x f
    simp only [map_eq_ok_iff]
    constructor
    · rintro ⟨n, ⟨m, hm, rfl⟩, hslot⟩
      exact ⟨m, hm, hslot⟩
    · rintro ⟨m, hm, hslot⟩
      exact ⟨f m, ⟨m, hm, rfl⟩, hslot⟩
  unfold ofText?
  cases kind with
  | person | institution | bot => exact hmap.trans (TextName.exists_ofText?_iff (by decide))
  | id =>
    rw [← idOfText?_eq_ok_iff]
    refine hmap.trans ⟨?_, fun h => ⟨slot, h, rfl⟩⟩
    rintro ⟨m, hm, rfl⟩
    exact hm

end EndpointName

end Dxb
