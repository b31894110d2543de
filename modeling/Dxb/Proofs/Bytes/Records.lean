import Dxb.Endpoint.Record
import Dxb.Quantity
import Dxb.Proofs.Bytes.Written

/-!
# Records read back

The records of endpoints and quantities whose lengths can be written down (`Fits`) are read from
exactly the bytes that were written (`takes`).  Nothing in a record is judged when it is read.
-/

namespace Dxb

open Reader (takes_pure takes_bytes takes_text takes_number takes_length takes_uint8)

namespace RecordInstance

/-- The lengths of the other two are taken. -/
def Fits : RecordInstance → Prop
  | text s => 0 < (utf8 s).length ∧ (utf8 s).length < 255
  | _ => True

theorem length_lt {i : RecordInstance} (h : i.Fits) : i.length < 256 := by
  cases i with
  | any | absent => decide
  | text s => exact Nat.lt_succ_of_lt h.2

theorem takes (i : RecordInstance) (h : i.Fits) : (read i.length).Takes i.bytes i := by
  cases i with
  | any | absent => exact takes_pure _
  | text s =>
    obtain ⟨hpos, hlt⟩ := h
    have hread : read (utf8 s).length = text <$> Reader.text (utf8 s).length := by
      rw [read, if_neg (Nat.ne_of_gt hpos), if_neg (Nat.ne_of_lt hlt)]
    show (read (utf8 s).length).Takes (utf8 s) (text s)
    rw [hread]
    exact (takes_text s).map text

end RecordInstance

namespace EndpointRecord

structure Fits (r : EndpointRecord) : Prop where
  name : r.name.length < 256
  count : r.subspaces.length < 256
  subspaces : ∀ s ∈ r.subspaces, (utf8 s).length < 256
  inst : r.inst.Fits

theorem takes_subspace {s : String} (h : (utf8 s).length < 256) :
    readSubspace.Takes (littleEndian 1 (utf8 s).length ++ utf8 s) s :=
  (takes_length h).bind (takes_text s)

theorem takes (r : EndpointRecord) (h : r.Fits) : read.Takes r.write r := by
  simp only [write, List.append_assoc]
  refine (takes_length h.name).bind ((takes_length h.count).bind
    ((takes_length (RecordInstance.length_lt h.inst)).bind ?_))
  have hsubspaces := Reader.Takes.repeated r.subspaces fun s hs => takes_subspace (h.subspaces s hs)
  exact (takes_bytes r.name).bind (hsubspaces.bind ((r.inst.takes h.inst).finish (takes_pure r)))

end EndpointRecord

namespace QuantityRecord

structure Fits (r : QuantityRecord) : Prop where
  numerator : r.numerator.length < 2 ^ 16
  denominator : r.denominator.length < 2 ^ 16
  count : r.factors.length < 256

theorem takes_factor (f : UInt8 × Int8) : readFactor.Takes [f.1, f.2.toUInt8] f :=
  (takes_uint8 f.1).bind ((Field.takes .int8 f.2 trivial).finish (takes_pure f))

theorem takes (r : QuantityRecord) (h : r.Fits) : read.Takes r.write r := by
  simp only [write, List.append_assoc]
  refine (takes_uint8 r.sign).bind ((takes_number h.numerator).bind
    ((takes_number h.denominator).bind ?_))
  have hfactors := Reader.Takes.repeated r.factors fun f _ => takes_factor f
  exact (takes_bytes r.numerator).bind ((takes_bytes r.denominator).bind
    ((takes_length h.count).bind (hfactors.finish (takes_pure r))))

end QuantityRecord

end Dxb
