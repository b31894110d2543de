import Dxb.Bytes.Field

/-!
# Reading what was written

`r.Takes bytes a` says that a reader takes exactly these bytes, as the value `a`, whatever follows
them.  The combinators add up what their parts take, so the law of a record is put together from
those of its fields.  `r.Ensures P` is the other direction: whatever a reader returns, of whatever
bytes, has the property `P`.
-/

namespace Dxb

theorem ofLittleEndian_lt (bytes : List UInt8) : ofLittleEndian bytes < 256 ^ bytes.length := by
  induction bytes with
  | nil => exact Nat.one_pos
  | cons b bytes ih =>
    have hb := b.toNat_lt
    have hcons : ofLittleEndian (b :: bytes) = b.toNat + 256 * ofLittleEndian bytes := rfl
    rw [hcons, List.length_cons, Nat.pow_succ]
    omega

namespace Reader

variable {α β : Type}

/-- A reader takes exactly `bytes`, as `a`, in front of any other bytes. -/
def Takes (r : Reader α) (bytes : List UInt8) (a : α) : Prop :=
  ∀ rest o, r.run ⟨bytes ++ rest, o⟩ = (.ok a, ⟨rest, o + bytes.length⟩)

/-- Whatever a reader returns has a property. -/
def Ensures (r : Reader α) (P : α → Prop) : Prop :=
  ∀ c a d, r.run c = (.ok a, d) → P a

/-! ## What combinators take -/

theorem takes_pure (a : α) : (pure a : Reader α).Takes [] a := fun _ _ => rfl

theorem Takes.bind {r : Reader α} {f : α → Reader β} {first second : List UInt8} {a : α} {b : β}
    (hr : r.Takes first a) (hf : (f a).Takes second b) : (r >>= f).Takes (first ++ second) b := by
  intro rest o
  rw [run_bind, List.append_assoc, hr, List.length_append, ← Nat.add_assoc]
  exact hf rest _

/-- The last part may take nothing. -/
theorem Takes.finish {r : Reader α} {f : α → Reader β} {bytes : List UInt8} {a : α} {b : β}
    (hr : r.Takes bytes a) (hf : (f a).Takes [] b) : (r >>= f).Takes bytes b := by
  have h := hr.bind hf
  rwa [List.append_nil] at h

theorem Takes.map {r : Reader α} {bytes : List UInt8} {a : α} (hr : r.Takes bytes a) (f : α → β) :
    (f <$> r).Takes bytes (f a) :=
  hr.finish (takes_pure (f a))

/-- The place where a reader begins plays no part in what it takes. -/
theorem takes_position {f : Nat → Reader β} {bytes : List UInt8} {b : β}
    (hf : ∀ o, (f o).Takes bytes b) : (position >>= f).Takes bytes b := by
  intro rest o
  rw [run_bind, run_position]
  exact hf o rest o

theorem Takes.withFault {r : Reader α} {bytes : List UInt8} {a : α} (hr : r.Takes bytes a)
    (e : DecodeError) : (r.withFault e).Takes bytes a := by
  intro rest o
  simp only [Reader.withFault, hr rest o]

/-- A part that is only there under a condition. -/
theorem Takes.optional {c : Prop} [Decidable c] {r : Reader Unit} {f : Unit → Reader β}
    {first second : List UInt8} {b : β} (hr : r.Takes first ()) (hf : (f ()).Takes second b) :
    (if c then r >>= f else f ()).Takes ((if c then first else []) ++ second) b := by
  by_cases hc : c
  · rw [if_pos hc, if_pos hc]
    exact hr.bind hf
  · rw [if_neg hc, if_neg hc]
    exact hf

theorem Takes.repeated {r : Reader α} {write : α → List UInt8} (xs : List α)
    (h : ∀ x ∈ xs, r.Takes (write x) x) : (r.repeated xs.length).Takes (xs.flatMap write) xs := by
  induction xs with
  | nil => exact takes_pure []
  | cons x xs ih =>
    have hx := h x List.mem_cons_self
    have hxs := ih fun y hy => h y (List.mem_cons_of_mem _ hy)
    exact hx.bind (hxs.finish (takes_pure (x :: xs)))

/-! ## What fields take -/

theorem takes_bytes (bytes : List UInt8) : (Reader.bytes bytes.length).Takes bytes bytes :=
  fun rest o => run_bytes_append bytes rest o

theorem takes_number {width n : Nat} (h : n < 256 ^ width) :
    (number width).Takes (littleEndian width n) n := by
  intro rest o
  rw [Field.run_number, Nat.mod_eq_of_lt h, length_littleEndian]

theorem takes_text (s : String) : (text (utf8 s).length).Takes (utf8 s) s :=
  fun rest o => Field.run_text s rest o

end Reader

theorem Field.takes (f : Field) (x : f.Value) (h : f.Fits x) : f.read.Takes (f.write x) x :=
  fun rest o => f.read_write x h rest o

namespace Reader

variable {α β : Type}

theorem takes_uint8 (b : UInt8) : uint8.Takes [b] b := Field.takes .uint8 b trivial

theorem takes_uint16 (n : UInt16) : uint16.Takes (littleEndian 2 n.toNat) n :=
  Field.takes .uint16 n trivial

theorem takes_uint32 (n : UInt32) : uint32.Takes (littleEndian 4 n.toNat) n :=
  Field.takes .uint32 n trivial

theorem takes_uint64 (n : UInt64) : uint64.Takes (littleEndian 8 n.toNat) n :=
  Field.takes .uint64 n trivial

theorem takes_padding (n : Nat) : (padding n).Takes (List.replicate n 0) () :=
  Field.takes (.padding n) () trivial

/-- A length byte. -/
theorem takes_length {n : Nat} (h : n < 256) : (number 1).Takes (littleEndian 1 n) n :=
  takes_number h

/-! ## What readers ensure -/

theorem ensures_true (r : Reader α) : r.Ensures fun _ => True := fun _ _ _ _ => trivial

theorem ensures_pure {P : α → Prop} {a : α} (h : P a) : (pure a : Reader α).Ensures P := by
  intro c b d hb
  rw [run_pure] at hb
  cases hb
  exact h

theorem Ensures.bind {r : Reader α} {f : α → Reader β} {P : α → Prop} {Q : β → Prop}
    (hr : r.Ensures P) (hf : ∀ a, P a → (f a).Ensures Q) : (r >>= f).Ensures Q := by
  intro c b d h
  rw [run_bind] at h
  split at h
  · rename_i a mid ha
    exact hf a (hr c a mid ha) mid b d h
  · cases h

/-- What is read first may be anything. -/
theorem ensures_of_rest (r : Reader α) {f : α → Reader β} {Q : β → Prop}
    (hf : ∀ a, (f a).Ensures Q) : (r >>= f).Ensures Q :=
  r.ensures_true.bind fun a _ => hf a

theorem Ensures.ite {c : Prop} [Decidable c] {r s : Reader α} {P : α → Prop}
    (hr : c → r.Ensures P) (hs : ¬ c → s.Ensures P) : (if c then r else s).Ensures P := by
  split
  · rename_i h
    exact hr h
  · rename_i h
    exact hs h

theorem Ensures.optional {c : Prop} [Decidable c] (r : Reader Unit) {f : Unit → Reader β}
    {P : β → Prop} (hf : (f ()).Ensures P) : (if c then r >>= f else f ()).Ensures P :=
  .ite (fun _ => r.ensures_of_rest fun _ => hf) fun _ => hf

theorem ensures_bytes (n : Nat) : (bytes n).Ensures fun taken => taken.length = n := by
  intro c taken d h
  simp only [bytes] at h
  split at h
  · cases h
  · rename_i hlen
    cases h
    have hle := List.length_take_le n c.rest
    omega

theorem ensures_number (width : Nat) : (number width).Ensures fun n => n < 256 ^ width := by
  refine (ensures_bytes width).bind ?_
  rintro taken rfl
  exact ensures_pure (ofLittleEndian_lt taken)

theorem ensures_repeated (r : Reader α) (n : Nat) :
    (r.repeated n).Ensures fun items => items.length = n := by
  induction n with
  | zero => exact ensures_pure rfl
  | succ n ih =>
    refine ensures_of_rest r fun a => ih.bind fun rest hrest => ensures_pure ?_
    rw [List.length_cons, hrest]

end Reader

end Dxb
