import Dxb.Proofs.Endpoint.Spelling
import Dxb.Proofs.Text.PointerIds

/-!
# What is written in hex

Ids, instances and pointers are written in hex, and hex is read back in either case, so each of them
is known by its text (`hex_reads_back`).  An id is read back with its sigil and its instance too,
since no other sigil is longer than that of an id (`Endpoint.ofText?_canonical_id`).
-/

namespace Dxb

namespace Endpoint

theorem ofText?_canonical_id (slot : NameSlot) (inst : UInt16) :
    ofText? (canonical ⟨.id slot, inst⟩) = .ok ⟨.id slot, inst⟩ := by
  apply ofText?_canonical
  obtain ⟨suffix, hsuffix⟩ := exists_canonical_eq ⟨.id slot, inst⟩
  rw [hsuffix]
  exact EndpointKind.leads_sigil_append_iff.2 nofun

theorem instanceText_eq_iff {a b : Endpoint} :
    a.instanceText = b.instanceText ↔ a.inst = b.inst := by
  refine ⟨instanceText_injective, fun h => ?_⟩
  unfold instanceText instanceBytes
  rw [h]

end Endpoint

/-- A text is read as hex if its bytes are an even number of digits in either case, and then it is,
in upper case, what is written for the bytes that were read; what is written in either case is read
back.  Ids, with and without their sigil and instance, and instances are read back as well.  So no
two ids, instances or pointers are written alike. -/
theorem hex_reads_back :
    (∀ text, (Hex.decode? text).isSome = true ↔
      (utf8 text).length % 2 = 0 ∧ ∀ b ∈ utf8 text, Hex.IsDigitCode b) ∧
    (∀ bytes, Hex.decode? (Hex.upper bytes) = some bytes ∧
      Hex.decode? (Hex.lower bytes) = some bytes) ∧
    (∀ text bytes, Hex.decode? text = some bytes ↔ text.toUpper = Hex.upper bytes) ∧
    (∀ slot : NameSlot, EndpointName.idOfText? slot.idText = .ok slot) ∧
    (∀ slot inst, Endpoint.ofText? (Endpoint.canonical ⟨.id slot, inst⟩) = .ok ⟨.id slot, inst⟩) ∧
    (∀ e : Endpoint, (InstanceRef.text e.instanceText).resolve? = .ok e.inst) ∧
    (∀ slot other : NameSlot, slot.idText = other.idText ↔ slot = other) ∧
    (∀ a b : Endpoint, a.instanceText = b.instanceText ↔ a.inst = b.inst) ∧
    ∀ a b, Literal.pointerId a = Literal.pointerId b ↔ a = b :=
  ⟨Hex.isSome_decode?_iff, fun bytes => ⟨Hex.decode?_upper bytes, Hex.decode?_lower bytes⟩,
    fun _ _ => Hex.decode?_eq_some_iff, EndpointName.idOfText?_idText,
    Endpoint.ofText?_canonical_id, Endpoint.resolve?_instanceText,
    fun _ _ => ⟨NameSlot.idText_injective, congrArg NameSlot.idText⟩,
    fun _ _ => Endpoint.instanceText_eq_iff,
    fun _ _ => ⟨Literal.pointerId_injective, congrArg Literal.pointerId⟩⟩

end Dxb
