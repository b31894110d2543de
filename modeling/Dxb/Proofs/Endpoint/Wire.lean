import Dxb.Proofs.Bytes.Records
import Dxb.Proofs.Endpoint.Canonical

/-!
# Endpoints on the wire

Whoever reads the record of an endpoint gets that endpoint, whatever its kind and its instance are.
An id fills its slot, a text has no NUL at its end that could be taken for padding, and an instance
is spelled by four hex digits, which are neither none nor 255.

    e.record.endpoint? e.kind = .ok e                                  (endpoint?_record)
-/

namespace Dxb

/-- What was judged last was found right. -/
theorem map_eq_ok_iff {ε α β : Type} {f : α → β} {x : Except ε α} {b : β} :
    f <$> x = .ok b ↔ ∃ a, x = .ok a ∧ f a = b := by
  constructor
  · intro h
    cases x with
    | error e => cases h
    | ok a =>
      cases h
      exact ⟨a, rfl, rfl⟩
  · rintro ⟨a, rfl, rfl⟩
    rfl

/-! ## Text in a slot -/

theorem eq_nul_of_zero_mem {c : Char} (h : 0 ∈ String.utf8EncodeChar c) : c = '\x00' := by
  rcases Nat.lt_or_ge c.toNat 128 with hc | hc
  · rw [utf8EncodeChar_of_ascii hc, List.mem_singleton] at h
    have hval := congrArg UInt8.toNat h
    rw [UInt8.toNat_ofNat', Nat.mod_eq_of_lt (by omega)] at hval
    exact Char.ext (UInt32.toNat_inj.1 hval.symm)
  · exact absurd (le_of_mem_utf8EncodeChar hc h) (by decide)

namespace NameSlot

theorem trim_of_getLast? {bytes : List UInt8} (h : bytes.getLast? ≠ some 0) :
    trim bytes = bytes := by
  have hself : bytes.reverse.dropWhile (· == 0) = bytes.reverse := by
    rw [List.dropWhile_eq_self_iff]
    intro hlen hzero
    rw [← List.head?_reverse, List.head?_eq_getElem?, List.getElem?_eq_getElem hlen] at h
    exact h (congrArg some (beq_iff_eq.1 hzero))
  rw [trim, hself, List.reverse_reverse]

/-- A text that does not end in NUL has no padding. -/
theorem trim_utf8 {s : String} (h : s.toList.getLast? ≠ some '\x00') : trim (utf8 s) = utf8 s := by
  apply trim_of_getLast?
  rw [utf8_eq_flatMap, List.getLast?_flatMap]
  cases hreverse : s.toList.reverse with
  | nil => exact nofun
  | cons c cs =>
    have hlast : s.toList.getLast? = some c := by
      rw [List.getLast?_eq_head?_reverse, hreverse, List.head?_cons]
    rw [List.findSome?_cons]
    cases hbyte : (String.utf8EncodeChar c).getLast? with
    | none => exact absurd (List.getLast?_eq_none_iff.1 hbyte) String.utf8EncodeChar_ne_nil
    | some b =>
      rintro ⟨⟩
      rw [eq_nul_of_zero_mem (List.mem_of_getLast? hbyte)] at hlast
      exact h hlast

/-- Bytes that fill the slot have nothing behind them. -/
theorem pad_bytes (s : NameSlot) (h : s.bytes.length ≤ nameSlotSize) : pad s.bytes h = s := by
  obtain ⟨bytes, hlen⟩ := s
  simp [pad, hlen]

end NameSlot

namespace TextName

theorem ofText?_text (n : TextName) : ofText? n.text = .ok n := by
  unfold ofText?
  rw [dif_neg n.nonempty, dif_neg fun h => (n.clean _ h).1 rfl, dif_neg, dif_neg]
  · have := n.short
    omega
  · rintro (h | h)
    · exact (n.clean _ h).2.1 rfl
    · exact (n.clean _ h).2.2 rfl

theorem trim_utf8 (n : TextName) : NameSlot.trim (utf8 n.text) = utf8 n.text :=
  NameSlot.trim_utf8 fun h => (n.clean _ (List.mem_of_getLast? h)).2.2 rfl

end TextName

namespace EndpointName

theorem ofBytes?_recorded (n : EndpointName) : ofBytes? n.kind n.recorded = .ok n := by
  cases n with
  | id slot =>
    have hle : slot.bytes.length ≤ nameSlotSize := Nat.le_of_eq slot.length_eq
    show ofBytes? .id slot.bytes = _
    rw [ofBytes?, dif_pos hle]
    exact congrArg (Except.ok ∘ id) (slot.pad_bytes hle)
  | person name | institution name | bot name =>
    show ofBytes? _ (utf8 name.text) = _
    rw [ofBytes?, dif_pos name.short]
    simp only [name.trim_utf8, ofUtf8?_utf8, ofText?, kind, name.ofText?_text]
    rfl

theorem length_recorded_le (n : EndpointName) : n.recorded.length ≤ nameSlotSize := by
  cases n with
  | id slot => exact Nat.le_of_eq slot.length_eq
  | person name | institution name | bot name => exact name.short

end EndpointName

/-! ## Hex digits of an instance -/

namespace Hex

theorem length_digits (ten : Char) (bytes : List UInt8) :
    (digits ten bytes).length = 2 * bytes.length := by
  induction bytes with
  | nil => rfl
  | cons b bytes ih =>
    have hcons : (digits ten (b :: bytes)).length = (digits ten bytes).length + 2 := rfl
    rw [hcons, ih, List.length_cons]
    omega

theorem all_isSome_digits (bytes : List UInt8) :
    (digits 'a' bytes).all (fun c => (value? c).isSome) = true := by
  rw [List.all_eq_true]
  intro c hc
  obtain ⟨n, hn, rfl⟩ := exists_digit_of_mem hc
  rw [value?_digit_lower_all n hn, Option.isSome_some]

/-- Digit by digit the same number comes out as byte by byte. -/
theorem foldl_digits (bytes : List UInt8) (n : Nat) :
    (digits 'a' bytes).foldl (fun high c => 16 * high + (value? c).getD 0) n =
      bytes.foldl (fun high b => 256 * high + b.toNat) n := by
  induction bytes generalizing n with
  | nil => rfl
  | cons b bytes ih =>
    have hlt := b.toNat_lt
    have hcons : digits 'a' (b :: bytes) =
        digit 'a' (b.toNat / 16) :: digit 'a' (b.toNat % 16) :: digits 'a' bytes := rfl
    rw [hcons, List.foldl_cons, List.foldl_cons, ih, List.foldl_cons,
      value?_digit_lower_all _ (by omega), value?_digit_lower_all _ (by omega)]
    congr 1
    simp only [Option.getD_some]
    omega

theorem length_utf8_lower (bytes : List UInt8) :
    (utf8 (lower bytes)).length = 2 * bytes.length := by
  have hascii : ∀ n, n < 16 → (digit 'a' n).toNat < 128 := by decide
  have hlist : (lower bytes).toList = digits 'a' bytes := String.toList_ofList
  rw [length_utf8_of_ascii, hlist, length_digits]
  rw [hlist]
  intro c hc
  obtain ⟨n, hn, rfl⟩ := exists_digit_of_mem hc
  exact hascii n hn

end Hex

/-- Hex digits give the instance that the bytes they spell give, or are too long as well. -/
theorem InstanceRef.resolve?_lower (bs : List UInt8) :
    (text (Hex.lower bs)).resolve? = (bytes bs).resolve? := by
  have hlist : (Hex.lower bs).toList = Hex.digits 'a' bs := String.toList_ofList
  have hlen := Hex.length_digits 'a' bs
  cases bs with
  | nil => rfl
  | cons b rest =>
    have hne : ¬ (Hex.lower (b :: rest) = "" ∨ Hex.lower (b :: rest) = "*") := by
      have hcons : (b :: rest).length = rest.length + 1 := rfl
      rintro (h | h)
      · rw [← hlist, h] at hlen
        change 0 = _ at hlen
        omega
      · rw [← hlist, h] at hlen
        change 1 = _ at hlen
        omega
    simp only [resolve?]
    rw [if_neg hne, hlist, Hex.all_isSome_digits, if_pos rfl, hlen, Hex.foldl_digits]
    have hhalf : (2 * (b :: rest).length + 1) / 2 = (b :: rest).length := by omega
    have hiff : 2 * instanceSize < 2 * (b :: rest).length ↔ instanceSize < (b :: rest).length := by
      omega
    simp only [hhalf, hiff]

namespace Endpoint

theorem length_instanceBytes (e : Endpoint) : e.instanceBytes.length = instanceSize := rfl

theorem resolve?_instanceText (e : Endpoint) :
    (InstanceRef.text e.instanceText).resolve? = .ok e.inst := by
  have hlt := e.inst.toNat_lt
  have hsize : ¬ instanceSize < e.instanceBytes.length := Nat.lt_irrefl _
  rw [instanceText, InstanceRef.resolve?_lower, InstanceRef.resolve?, if_neg hsize]
  apply congrArg Except.ok
  apply UInt16.toNat_inj.1
  simp only [instanceBytes, List.foldl_cons, List.foldl_nil, UInt8.toNat_ofNat',
    UInt16.toNat_toUInt8, UInt16.toNat_ofNat']
  omega

theorem record_inst (e : Endpoint) :
    e.record.inst = if e.isMain then .absent else .text e.instanceText := rfl

/-- A record never leaves the instance open. -/
theorem record_inst_ne_any (e : Endpoint) : e.record.inst ≠ .any := by
  rw [record_inst]
  split <;> exact RecordInstance.noConfusion

/-- The record of an endpoint describes that endpoint. -/
theorem endpoint?_record (e : Endpoint) : e.record.endpoint? e.kind = .ok e := by
  have hinst : e.record.inst.ref.resolve? = .ok e.inst := by
    rw [record_inst]
    split
    · rename_i hmain
      have hzero : e.inst = 0 := by simpa [isMain] using hmain
      rw [hzero]
      rfl
    · exact e.resolve?_instanceText
  unfold EndpointRecord.endpoint? ofBytes? kind
  rw [show e.record.name = e.name.recorded from rfl, e.name.ofBytes?_recorded, hinst]
  rfl

/-- Every endpoint has a record whose lengths can be written. -/
theorem fits_record (e : Endpoint) : e.record.Fits where
  name := Nat.lt_of_le_of_lt e.name.length_recorded_le (by decide)
  count := Nat.zero_lt_succ 255
  subspaces s hs := by cases hs
  inst := by
    rw [record_inst]
    split
    · trivial
    · show 0 < (utf8 (Hex.lower _)).length ∧ (utf8 (Hex.lower _)).length < 255
      rw [Hex.length_utf8_lower, length_instanceBytes]
      decide

end Endpoint

end Dxb
