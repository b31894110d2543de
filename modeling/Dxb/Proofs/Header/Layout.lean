import Dxb.Header
import Dxb.Proofs.Endpoint.Wire

/-!
# Headers read back

A header that fits is read from exactly the bytes that were written (`Header.takes`), and whatever
is read fits (`Header.ensures_fits`), also when the message had parts that a header does not keep.
-/

namespace Dxb

open Reader (takes_pure takes_bytes takes_text takes_number takes_length takes_uint8 takes_uint16
  takes_uint32 takes_uint64 takes_padding ensures_pure ensures_of_rest ensures_number ensures_bytes)

theorem Security.ofByte?_byte (s : Security) : ofByte? s.byte = some s := by
  cases s <;> decide

theorem BlockType.ofByte?_byte (b : BlockType) : ofByte? b.byte = some b := by
  cases b <;> decide

/-- A filter must be shorter than the length that stands for a flood. -/
def Receivers.Fits : Receivers → Prop
  | flood => True
  | filter bytes => bytes.length < Header.floodMark

/-- What the wire has room for: every other field fits by its type. -/
structure HeaderOf.Fits {Sender : Type} (h : HeaderOf Sender) : Prop where
  receivers : h.receivers.Fits
  since : epochMillis ≤ h.timestamp
  dated : h.timestamp ≤ Calendar.lastMillis

theorem HeaderOf.fits_default {Sender : Type} : ({} : HeaderOf Sender).Fits where
  receivers := Nat.zero_lt_succ _
  since := Int.le_refl _
  dated := by
    show (epochMillis : Int) ≤ Calendar.lastMillis
    decide

namespace Header

variable {α β : Type}

/-! ## Reading what was written -/

theorem takes_orInvalid {o : Option α} {a : α} {f : α → Reader β} {bytes : List UInt8} {b : β}
    (ho : o = some a) (hf : (f a).Takes bytes b) : (orInvalid o >>= f).Takes bytes b := by
  subst ho
  exact (takes_pure a).bind hf

theorem takes_senderKind (kind : EndpointKind) :
    readSenderKind.Takes [(Opcode.endpoint kind false).byte] (some kind) := by
  have hbyte : (Opcode.endpoint kind false).byte ≠ 0 := by cases kind <;> decide
  refine (takes_uint8 _).finish ?_
  rw [if_neg hbyte, Opcode.ofByte?_byte]
  exact takes_pure _

theorem takes_senderName {kind : EndpointKind} {r : EndpointRecord} {e : Endpoint}
    (he : r.endpoint? kind = .ok e) (hfits : r.inst.Fits) (hany : r.inst ≠ .any) :
    (readSenderName kind ⟨r.name.length, 0, r.inst.length⟩).Takes (r.name ++ r.inst.bytes) e := by
  have hjudged : (Endpoint.ofBytes? kind r.name r.inst.ref).toOption = some e := by
    rw [show Endpoint.ofBytes? kind r.name r.inst.ref = .ok e from he]
    rfl
  have hdone : (orInvalid (Endpoint.ofBytes? kind r.name r.inst.ref).toOption).Takes [] e := by
    rw [hjudged]
    exact takes_pure e
  unfold readSenderName
  cases hinst : r.inst with
  | any => exact absurd hinst hany
  | absent =>
    rw [hinst] at hdone
    have hpos : RecordInstance.absent.length ≠ 0 := by decide
    rw [if_neg hpos]
    refine (takes_bytes r.name).bind ((takes_pure []).bind ?_)
    exact (takes_pure InstanceRef.main).bind hdone
  | text s =>
    rw [hinst] at hdone hfits
    have hpos : (RecordInstance.text s).length ≠ 0 := Nat.ne_of_gt hfits.1
    have hlt : (RecordInstance.text s).length ≠ noInstance := Nat.ne_of_lt hfits.2
    rw [if_neg hpos]
    refine (takes_bytes r.name).bind ((takes_pure []).bind ?_)
    rw [if_neg hlt]
    exact ((takes_text s).map InstanceRef.text).finish hdone

theorem takes_sender (sender : Option Endpoint) :
    readSender.Takes (writeSender sender) sender := by
  cases sender with
  | none =>
    have hkind : readSenderKind.Takes [0] none := by
      refine (takes_uint8 0).finish ?_
      rw [if_pos rfl]
      exact takes_pure none
    exact hkind.finish (takes_pure none)
  | some e =>
    have hfits := e.fits_record
    have hname := takes_senderName e.endpoint?_record hfits.inst e.record_inst_ne_any
    simp only [writeSender, List.append_assoc]
    refine (takes_senderKind e.kind).bind ((takes_length hfits.name).bind ?_)
    refine (takes_length (n := 0) (by decide)).bind ?_
    refine (takes_length (RecordInstance.length_lt hfits.inst)).bind ?_
    exact (takes_uint8 0).bind (hname.finish (takes_pure (some e)))

theorem takes_receivers {r : Receivers} (h : r.Fits) :
    readReceivers.Takes (writeReceivers r) r := by
  cases r with
  | flood =>
    refine (takes_number (by decide)).finish ?_
    rw [if_pos rfl]
    exact takes_pure _
  | filter bytes =>
    have hlt : bytes.length < floodMark := h
    refine (takes_number (Nat.lt_trans hlt (by decide))).bind ?_
    rw [if_neg (Nat.ne_of_lt hlt)]
    exact (takes_bytes bytes).finish (takes_pure _)

/-- The time of a header is found again from the milliseconds written. -/
theorem takes_since {h : Header} (hf : h.Fits) {f : UInt64 → Reader β} {bytes : List UInt8} {b : β}
    (hrest : ∀ n : UInt64, timestamp? n.toNat = some h.timestamp → (f n).Takes bytes b) :
    (Reader.uint64 >>= f).Takes (littleEndian 8 h.sinceEpoch ++ bytes) b := by
  have hsince := hf.since
  have hdated := hf.dated
  have hnat : (UInt64.ofNat h.sinceEpoch).toNat = h.sinceEpoch := by
    rw [UInt64.toNat_ofNat', Nat.mod_eq_of_lt]
    simp only [sinceEpoch, epochMillis, Calendar.lastMillis] at *
    omega
  rw [← hnat]
  refine (takes_uint64 _).bind (hrest _ ?_)
  rw [hnat, timestamp?, if_pos]
  · simp only [sinceEpoch, epochMillis, Option.some.injEq] at *
    omega
  · simp only [sinceEpoch, epochMillis, Calendar.lastMillis] at *
    omega

theorem takes (h : Header) (hf : h.Fits) : read.Takes h.write h := by
  simp only [write, List.append_assoc, List.cons_append, List.nil_append]
  refine (takes_bytes magic).bind ?_
  rw [if_neg (not_not_intro rfl)]
  refine (takes_uint8 h.version).bind ((takes_uint16 h.blockSize).bind ?_)
  refine (takes_uint8 h.ttl).bind ((takes_uint8 h.priority).bind ((takes_uint8 _).bind ?_))
  refine takes_orInvalid h.security.ofByte?_byte ((takes_sender h.sender).bind ?_)
  refine (takes_receivers hf.receivers).bind ?_
  refine (takes_padding signatureSize).optional ?_
  refine (takes_uint32 h.scopeId).bind ((takes_uint16 h.returnIndex).bind ?_)
  refine (takes_uint16 h.blockIncrement).bind ((takes_uint8 _).bind ?_)
  refine takes_orInvalid h.blockType.ofByte?_byte ((takes_uint8 h.flags).bind ?_)
  refine takes_since hf fun n hn => takes_orInvalid hn ?_
  have hvector := (takes_padding vectorSize).optional (c := h.security.isEncrypted)
    (f := fun _ => pure h) (takes_pure h)
  rw [List.append_nil] at hvector
  exact hvector

/-! ## What reading ensures -/

theorem ensures_invalid (P : α → Prop) : (invalid : Reader α).Ensures P := by
  intro c a d h
  cases h

theorem ensures_orInvalid (o : Option α) : (orInvalid o).Ensures fun a => o = some a := by
  cases o with
  | some a => exact ensures_pure rfl
  | none => exact ensures_invalid _

/-- The mark of a flood is not the length of a filter. -/
theorem ensures_receivers : readReceivers.Ensures Receivers.Fits := by
  refine (ensures_number 2).bind fun length hlength => Reader.Ensures.ite ?_ ?_
  · intro _
    exact ensures_pure trivial
  · intro hmark
    refine (ensures_bytes length).bind fun bytes hbytes => ensures_pure ?_
    subst hbytes
    exact Nat.lt_of_le_of_ne (Nat.le_of_lt_succ hlength) hmark

theorem timestamp?_bounds {since : Nat} {millis : Int} (h : timestamp? since = some millis) :
    epochMillis ≤ millis ∧ millis ≤ Calendar.lastMillis := by
  unfold timestamp? at h
  split at h
  · cases h
    omega
  · cases h

/-- Whatever is read could have been written. -/
theorem ensures_fits : read.Ensures HeaderOf.Fits := by
  refine ensures_of_rest _ fun start => Reader.Ensures.ite (fun _ => ensures_invalid _) fun _ => ?_
  refine ensures_of_rest _ fun version => ensures_of_rest _ fun blockSize => ?_
  refine ensures_of_rest _ fun ttl => ensures_of_rest _ fun priority => ?_
  refine ensures_of_rest _ fun securityByte => ensures_of_rest _ fun security => ?_
  refine ensures_of_rest _ fun sender => ensures_receivers.bind fun receivers hreceivers => ?_
  refine Reader.Ensures.optional _ ?_
  refine ensures_of_rest _ fun scopeId => ensures_of_rest _ fun returnIndex => ?_
  refine ensures_of_rest _ fun blockIncrement => ensures_of_rest _ fun typeByte => ?_
  refine ensures_of_rest _ fun blockType => ensures_of_rest _ fun flags => ?_
  refine ensures_of_rest _ fun since => (ensures_orInvalid _).bind fun timestamp htimestamp => ?_
  obtain ⟨hsince, hdated⟩ := timestamp?_bounds htimestamp
  exact Reader.Ensures.optional _ (ensures_pure ⟨hreceivers, hsince, hdated⟩)

end Header

end Dxb
