import Dxb.Program.Literal

/-!
# Pointer ids

A pointer id is read two characters at a time: `x` and a hex digit are so many zero bytes, and two
hex digits are one byte (`bytesOfId?`).  No hex digit is an `x`, so there is one way to read a text,
and what is written for an id is read as that id, whatever stands behind it.

    bytesOfId? ((pointerId id).toList ++ rest) = (bytesOfId? rest).map (id ++ ·)   (spells_pointerId)
-/

namespace Dxb.Literal

/-! ## Reading -/

/-- The bytes that two characters of a pointer id stand for. -/
def runOrByte? (first second : Char) : Option (List UInt8) :=
  if first = 'x' then (Hex.value? second).map fun count => List.replicate count 0
  else do
    let high ← Hex.value? first
    let low ← Hex.value? second
    some [UInt8.ofNat (16 * high + low)]

/-- The bytes that a pointer id stands for, two characters after two. -/
def bytesOfId? : List Char → Option (List UInt8)
  | [] => some []
  | first :: second :: rest => do
    let bytes ← runOrByte? first second
    let more ← bytesOfId? rest
    some (bytes ++ more)
  | [_] => none

/-- In front of any other characters, these are read as the given bytes. -/
def Spells (cs : List Char) (bytes : List UInt8) : Prop :=
  ∀ rest, bytesOfId? (cs ++ rest) = (bytesOfId? rest).map (bytes ++ ·)

theorem spells_nil : Spells [] [] := fun _ => Option.map_id'.symm

theorem Spells.append {cs ds : List Char} {first second : List UInt8} (hc : Spells cs first)
    (hd : Spells ds second) : Spells (cs ++ ds) (first ++ second) := by
  intro rest
  rw [List.append_assoc, hc, hd, Option.map_map]
  simp only [Function.comp_def, List.append_assoc]

theorem spells_pair {first second : Char} {bytes : List UInt8}
    (h : runOrByte? first second = some bytes) : Spells [first, second] bytes := by
  intro rest
  rw [List.cons_append, List.cons_append, List.nil_append, bytesOfId?, h]
  cases bytesOfId? rest <;> rfl

/-! ## What is written -/

theorem spells_zeros {count : Nat} (h : count < 16) :
    Spells ['x', Hex.digit 'A' count] (List.replicate count 0) := by
  apply spells_pair
  rw [runOrByte?, if_pos rfl, Hex.value?_digit_upper_all count h, Option.map_some]

theorem digit_ne_x : ∀ n, n < 16 → Hex.digit 'A' n ≠ 'x' := by decide

theorem spells_byte (b : UInt8) : Spells (Hex.digits 'A' [b]) [b] := by
  have hb := b.toNat_lt
  have hhigh : b.toNat / 16 < 16 := by omega
  have hlow : b.toNat % 16 < 16 := by omega
  have hsum : UInt8.ofNat (16 * (b.toNat / 16) + b.toNat % 16) = b := by
    rw [Nat.div_add_mod, UInt8.ofNat_toNat]
  apply spells_pair
  rw [runOrByte?, if_neg (digit_ne_x _ hhigh), Hex.value?_digit_upper_all _ hhigh,
    Hex.value?_digit_upper_all _ hlow]
  exact congrArg (fun byte => some [byte]) hsum

theorem spells_fullRuns (n : Nat) :
    Spells (List.replicate n ['x', 'F']).flatten (List.replicate (15 * n) 0) := by
  induction n with
  | zero => exact spells_nil
  | succ n ih =>
    have hfull : Spells ['x', 'F'] (List.replicate 15 0) := spells_zeros (by decide : 15 < 16)
    have h := hfull.append ih
    rwa [List.replicate_append_replicate, Nat.add_comm, ← Nat.mul_succ] at h

/-- A run of zero bytes is cut into runs that one digit can count. -/
theorem spells_zeroRun (count : Nat) : Spells (zeroRun count) (List.replicate count 0) := by
  have hlt : count % 15 < 15 := Nat.mod_lt count (by decide)
  have hzeros : List.replicate count (0 : UInt8) =
      List.replicate (15 * (count / 15)) 0 ++ List.replicate (count % 15) 0 := by
    rw [List.replicate_append_replicate, Nat.div_add_mod]
  rw [hzeros, zeroRun]
  apply (spells_fullRuns (count / 15)).append
  split
  · rename_i hzero
    rw [hzero]
    exact spells_nil
  · rename_i hone
    rw [hone]
    exact spells_byte 0
  · exact spells_zeros (by omega)

/-- The zero bytes that were seen but not yet written stand in front. -/
theorem spells_pointerFrom (zeros : Nat) (id : List UInt8) :
    Spells (pointerFrom zeros id) (List.replicate zeros 0 ++ id) := by
  induction id generalizing zeros with
  | nil =>
    rw [List.append_nil]
    exact spells_zeroRun zeros
  | cons b rest ih =>
    rw [pointerFrom]
    split
    · rename_i hzero
      subst hzero
      have h := ih (zeros + 1)
      rwa [List.replicate_succ', List.append_assoc] at h
    · have h := ((spells_zeroRun zeros).append (spells_byte b)).append (ih 0)
      rwa [List.append_assoc (List.replicate zeros 0)] at h

theorem spells_pointerId (id : List UInt8) : Spells (pointerId id).toList id := by
  rw [pointerId, String.toList_ofList]
  exact spells_pointerFrom 0 id

theorem bytesOfId?_pointerId (id : List UInt8) : bytesOfId? (pointerId id).toList = some id := by
  have h := spells_pointerId id []
  rwa [List.append_nil, bytesOfId?, Option.map_some, List.append_nil] at h

example : bytesOfId? "ABx2x1FF".toList = some [0xab, 0, 0, 0, 0xff] := by decide

theorem pointerId_injective {a b : List UInt8} (h : pointerId a = pointerId b) : a = b := by
  have ha := bytesOfId?_pointerId a
  rw [h, bytesOfId?_pointerId b] at ha
  exact (Option.some.inj ha).symm

/-- A pointer id of any length is read back, to its end and in front of whatever stands behind it,
so no other id is written in the same way. -/
theorem pointerId_uniquely_readable (id : List UInt8) :
    bytesOfId? (pointerId id).toList = some id ∧
      (∀ rest, bytesOfId? ((pointerId id).toList ++ rest) = (bytesOfId? rest).map (id ++ ·)) ∧
      ∀ other, pointerId other = pointerId id ↔ other = id := by
  refine ⟨bytesOfId?_pointerId id, spells_pointerId id, fun other => ⟨pointerId_injective, ?_⟩⟩
  rintro rfl
  rfl

end Dxb.Literal
