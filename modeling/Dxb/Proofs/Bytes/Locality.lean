import Dxb.Program.Operand

/-!
# Readers do not look ahead and do not look around

A reader is local when what it makes of the bytes it takes does not depend on the bytes behind
them.  A reader may fail because there are too few bytes, but it never decides anything by bytes
that it leaves:

    (Instruction.read room).Local                            (Instruction.local_read)

Nor does it decide anything by the offset at which it reads, which it only reports.  Readers that
are built in the same way, but for offsets that are larger by `k` in the second one (`Alike k`), do
the same where everything is `k` further on (`Alike.run_moved`).  Readers of instructions are built
like themselves for every `k`, and whatever is built so is local (`Alike.isLocal`).
-/

namespace Dxb

/-- The same fault, noticed further on. -/
def DecodeError.moved (k : Nat) : DecodeError → DecodeError
  | unexpectedEof o needed => unexpectedEof (o + k) needed
  | noParentScope o => noParentScope (o + k)
  | invalidHeader o => invalidHeader (o + k)
  | invalidUtf8 o => invalidUtf8 (o + k)
  | nestedOutOfBounds o length => nestedOutOfBounds (o + k) length
  | tooDeep o limit => tooDeep (o + k) limit

/-- The same bytes to come, with more of them behind. -/
def Cursor.moved (k : Nat) (c : Cursor) : Cursor := ⟨c.rest, c.offset + k⟩

namespace Reader

variable {α β : Type} {k : Nat}

/-- A reader that takes `taken` takes it in the same way in front of any other bytes. -/
def Local (r : Reader α) : Prop :=
  ∀ (taken rest : List UInt8) (o o' : Nat) (a : α),
    r.run ⟨taken ++ rest, o⟩ = (.ok a, ⟨rest, o'⟩) →
      ∀ rest', r.run ⟨taken ++ rest', o⟩ = (.ok a, ⟨rest', o'⟩)

/-- The bytes that a reader takes, and how it counts them. -/
theorem exists_taken {r : Reader α} {bytes rest : List UInt8} {o o' : Nat}
    {x : Except DecodeError α} (h : r.run ⟨bytes, o⟩ = (x, ⟨rest, o'⟩)) :
    ∃ taken, bytes = taken ++ rest ∧ o' = o + taken.length := by
  obtain ⟨taken, hb, ho⟩ := r.forward ⟨bytes, o⟩
  rw [h] at hb ho
  exact ⟨taken, hb, ho⟩

/-! ## Combinators -/

theorem local_pure (a : α) : (pure a : Reader α).Local := by
  intro taken rest o o' b h rest'
  rw [run_pure] at h ⊢
  obtain ⟨hab, hc⟩ := Prod.mk.inj h
  obtain ⟨hrest, ho⟩ := Cursor.mk.inj hc
  have htaken : taken = [] := by simpa using hrest
  rw [htaken, List.nil_append, hab, ho]

theorem local_fail (e : DecodeError) : (fail e : Reader α).Local := by
  intro taken rest o o' a h
  rw [run_fail] at h
  cases h

theorem local_position : position.Local := by
  intro taken rest o o' a h rest'
  rw [run_position] at h ⊢
  obtain ⟨ha, hc⟩ := Prod.mk.inj h
  obtain ⟨hrest, ho⟩ := Cursor.mk.inj hc
  have htaken : taken = [] := by simpa using hrest
  rw [htaken, List.nil_append, ← ho]
  rw [← ha]

/-- What two readers take one after the other is what the first one takes and then what the second
one takes. -/
theorem exists_parts_of_bind {r : Reader α} {f : α → Reader β} {taken rest : List UInt8}
    {o o' : Nat} {b : β} (h : (r >>= f).run ⟨taken ++ rest, o⟩ = (.ok b, ⟨rest, o'⟩)) :
    ∃ a first second mid, taken = first ++ second ∧
      r.run ⟨first ++ (second ++ rest), o⟩ = (.ok a, ⟨second ++ rest, mid⟩) ∧
      (f a).run ⟨second ++ rest, mid⟩ = (.ok b, ⟨rest, o'⟩) := by
  rw [run_bind] at h
  split at h
  · rename_i a mid hm
    obtain ⟨mid, om⟩ := mid
    obtain ⟨first, hfirst, -⟩ := exists_taken hm
    obtain ⟨second, hsecond, -⟩ := exists_taken h
    -- both parts together are what was taken
    have htaken : taken = first ++ second := by
      rw [hsecond, ← List.append_assoc] at hfirst
      exact List.append_cancel_right hfirst
    subst htaken
    subst hsecond
    rw [List.append_assoc] at hm
    exact ⟨a, first, second, om, rfl, hm, h⟩
  · cases h

theorem Local.bind {r : Reader α} {f : α → Reader β} (hr : r.Local) (hf : ∀ a, (f a).Local) :
    (r >>= f).Local := by
  intro taken rest o o' b h rest'
  obtain ⟨a, first, second, mid, rfl, hfirst, hsecond⟩ := exists_parts_of_bind h
  rw [run_bind, List.append_assoc, hr _ _ _ _ _ hfirst (second ++ rest')]
  exact hf a _ _ _ _ _ hsecond rest'

theorem Local.atomic {r : Reader α} (hr : r.Local) : r.atomic.Local := by
  intro taken rest o o' a h rest'
  simp only [Reader.atomic] at h ⊢
  split at h
  · rename_i b d hb
    cases h
    rw [hr _ _ _ _ _ hb rest']
  · cases h

theorem Local.withFault {r : Reader α} (hr : r.Local) (e : DecodeError) :
    (r.withFault e).Local := by
  intro taken rest o o' a h rest'
  simp only [Reader.withFault] at h ⊢
  split at h
  · rename_i b d hb
    cases h
    rw [hr _ _ _ _ _ hb rest']
  · cases h

theorem length_of_bytes {n : Nat} {taken rest : List UInt8} {o o' : Nat} {a : List UInt8}
    (h : (bytes n).run ⟨taken ++ rest, o⟩ = (.ok a, ⟨rest, o'⟩)) : taken.length = n := by
  obtain ⟨taken', htaken, ho⟩ := exists_taken h
  have hsame : taken = taken' := List.append_cancel_right htaken
  subst hsame
  simp only [bytes] at h
  split at h
  · cases h
  · obtain ⟨-, hc⟩ := Prod.mk.inj h
    obtain ⟨-, hn⟩ := Cursor.mk.inj hc
    omega

theorem local_bytes (n : Nat) : (bytes n).Local := by
  intro taken rest o o' a h rest'
  have hlen := length_of_bytes h
  subst hlen
  rw [run_bytes_append] at h ⊢
  obtain ⟨ha, hc⟩ := Prod.mk.inj h
  obtain ⟨-, ho⟩ := Cursor.mk.inj hc
  rw [ha, ho]

/-! ## Readers built in the same way -/

/-- Two readers are built in the same way, but the second one gets offsets larger by `k`. -/
inductive Alike (k : Nat) : {α : Type} → Reader α → Reader α → Prop
  | pure {α : Type} (a : α) : Alike k (pure a : Reader α) (pure a)
  | fail {α : Type} (e : DecodeError) : Alike k (fail e : Reader α) (fail (e.moved k))
  | bytes (n : Nat) : Alike k (bytes n) (bytes n)
  | position {α : Type} {f f' : Nat → Reader α} (hf : ∀ o, Alike k (f o) (f' (o + k))) :
      Alike k (position >>= f) (position >>= f')
  | bind {α β : Type} {r r' : Reader α} {f f' : α → Reader β} (hr : Alike k r r')
      (hf : ∀ a, Alike k (f a) (f' a)) : Alike k (r >>= f) (r' >>= f')
  | atomic {α : Type} {r r' : Reader α} (hr : Alike k r r') : Alike k r.atomic r'.atomic
  | withFault {α : Type} {r r' : Reader α} (hr : Alike k r r') (e : DecodeError) :
      Alike k (r.withFault e) (r'.withFault (e.moved k))

namespace Alike

variable {r r' : Reader α}

theorem isLocal (h : Alike k r r') : r.Local := by
  induction h with
  | pure a => exact local_pure a
  | fail e => exact local_fail e
  | bytes n => exact local_bytes n
  | position _ ih => exact local_position.bind ih
  | bind _ _ ihr ihf => exact ihr.bind ihf
  | atomic _ ih => exact ih.atomic
  | withFault _ e ih => exact ih.withFault e

/-- Further on, the second reader makes of the same bytes what the first one makes of them. -/
theorem run_moved (h : Alike k r r') (c : Cursor) :
    r'.run (c.moved k) = ((r.run c).1.mapError (·.moved k), (r.run c).2.moved k) := by
  induction h generalizing c with
  | pure a => rfl
  | fail e => rfl
  | bytes n =>
    simp only [Reader.bytes, Cursor.moved]
    split
    · rfl
    · rw [Nat.add_right_comm]
      rfl
  | position _ ih =>
    rw [run_bind, run_bind, run_position, run_position]
    exact ih c.offset c
  | @bind _ _ r r' _ _ _ _ ihr ihf =>
    rw [run_bind, run_bind, ihr c]
    cases hr : r.run c with
    | mk result d =>
      cases result with
      | ok a => exact ihf a d
      | error e => rfl
  | @atomic _ r r' _ ih =>
    simp only [Reader.atomic, ih c]
    cases hr : r.run c with
    | mk result d => cases result <;> rfl
  | @withFault _ r r' _ e ih =>
    simp only [Reader.withFault, ih c]
    cases hr : r.run c with
    | mk result d => cases result <;> rfl

theorem map (h : Alike k r r') (f : α → β) : Alike k (f <$> r) (f <$> r') :=
  h.bind fun a => .pure (f a)

theorem repeated (h : Alike k r r') (n : Nat) : Alike k (r.repeated n) (r'.repeated n) := by
  induction n with
  | zero => exact .pure []
  | succ n ih => exact h.bind fun a => ih.bind fun rest => .pure (a :: rest)

end Alike

/-! ## Fields -/

theorem alike_number (w : Nat) : Alike k (number w) (number w) := (Alike.bytes w).map ofLittleEndian

theorem alike_uint8 : Alike k uint8 uint8 := (alike_number 1).map UInt8.ofNat

theorem alike_uint16 : Alike k uint16 uint16 := (alike_number 2).map UInt16.ofNat

theorem alike_text (n : Nat) : Alike k (text n) (text n) := by
  refine Alike.atomic (.position fun start => (Alike.bytes n).bind fun read => ?_)
  split
  · exact .pure _
  · exact .fail _

end Reader

open Reader

variable {k : Nat}

theorem Field.alike_read (f : Field) : Alike k f.read f.read :=
  f.read_induction (P := fun r => Alike k r r) .bytes alike_text (fun g h => h.map g)
    fun width _ h => ((alike_number width).bind h).atomic

/-! ## Operands -/

theorem VariableName.alike_read : Alike k VariableName.read VariableName.read := by
  refine (alike_number 1).bind fun length => ?_
  split
  · exact alike_uint16.map _
  · exact (alike_text length).map _

theorem TypeName.alike_read (extended : Bool) :
    Alike k (TypeName.read extended) (TypeName.read extended) := by
  refine (alike_number 1).bind fun space => (alike_number 1).bind fun name => ?_
  dsimp only
  split
  · exact (alike_number 1).bind fun variation => alike_uint8.bind fun parameters =>
      (Alike.pure _).bind fun (variation, parameters) => (alike_text space).bind fun _ =>
        (alike_text name).bind fun _ => (alike_text variation).bind fun _ => .pure _
  · exact (Alike.pure _).bind fun (variation, parameters) => (alike_text space).bind fun _ =>
      (alike_text name).bind fun _ => (alike_text variation).bind fun _ => .pure _

theorem RecordInstance.alike_read (length : Nat) :
    Alike k (RecordInstance.read length) (RecordInstance.read length) := by
  unfold RecordInstance.read
  split
  · exact .pure _
  · split
    · exact .pure _
    · exact (alike_text length).map _

theorem EndpointRecord.alike_read : Alike k EndpointRecord.read EndpointRecord.read := by
  have subspace : Alike k EndpointRecord.readSubspace EndpointRecord.readSubspace :=
    (alike_number 1).bind alike_text
  exact (alike_number 1).bind fun name => (alike_number 1).bind fun count =>
    (alike_number 1).bind fun inst => (Alike.bytes name).bind fun _ =>
      (subspace.repeated count).bind fun _ => (RecordInstance.alike_read inst).bind fun _ =>
        .pure _

theorem QuantityRecord.alike_read : Alike k QuantityRecord.read QuantityRecord.read := by
  have factor : Alike k QuantityRecord.readFactor QuantityRecord.readFactor :=
    alike_uint8.bind fun _ => (alike_uint8.map _).bind fun _ => .pure _
  exact alike_uint8.bind fun _ => (alike_number 2).bind fun numerator =>
    (alike_number 2).bind fun denominator => (Alike.bytes numerator).bind fun _ =>
      (Alike.bytes denominator).bind fun _ => (alike_number 1).bind fun count =>
        (factor.repeated count).bind fun _ => .pure _

theorem Operand.alike_read (o : Operand) : Alike k o.read o.read := by
  cases o with
  | field f => exact f.alike_read
  | variableName => exact VariableName.alike_read
  | typeName extended => exact TypeName.alike_read extended
  | endpoint => exact EndpointRecord.alike_read
  | quantity => exact QuantityRecord.alike_read
  | program =>
    exact (alike_number 4).bind fun length => .position fun start =>
      (Alike.bytes length).withFault (.nestedOutOfBounds start length)

theorem Operands.alike_read (os : List Operand) :
    Alike k (Operands.read os) (Operands.read os) := by
  induction os with
  | nil => exact .pure ()
  | cons o os ih => exact o.alike_read.bind fun x => ih.bind fun xs => .pure (x, xs)

theorem Instruction.alike_read (room : Bool) :
    Alike k (Instruction.read room) (Instruction.read room) := by
  refine .position fun start => alike_uint8.bind fun byte => ?_
  unfold Instruction.readRest
  split
  · exact .pure _
  · rename_i op _
    split
    · exact .fail (.tooDeep start Instruction.maxDepth)
    · exact (Operands.alike_read op.operands).bind fun _ => .pure _

theorem Instruction.local_read (room : Bool) : (Instruction.read room).Local :=
  (Instruction.alike_read (k := 0) room).isLocal

end Dxb
