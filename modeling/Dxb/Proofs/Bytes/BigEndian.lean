import Dxb.Bytes.Endian

/-!
# Big-endian numbers

A number is read back from its big-endian bytes (`ofBigEndian_bigEndian`), of which there are as
many as it needs: at most `k` if it is below `256 ^ k` (`length_bigEndian_le`), which is what the
count of bytes says as well (`byteLength_le_iff`).
-/

namespace Dxb

namespace Digits

theorem lt_of_mem_places {base : Nat} (hbase : 0 < base) {k n d : Nat}
    (h : d ∈ places base k n) : d < base := by
  induction k generalizing n with
  | zero =>
    rw [List.mem_singleton.1 h]
    exact Nat.mod_lt n hbase
  | succ k ih =>
    rcases List.mem_append.1 h with h | h
    · exact ih h
    · exact ih h

theorem lt_of_mem_digits {base : Nat} (hbase : 0 < base) {n d : Nat} (h : d ∈ digits base n) :
    d < base :=
  lt_of_mem_places hbase ((List.dropWhile_sublist _).subset h)

/-- The first digit is not zero. -/
theorem ne_zero_of_digits_eq_cons {base n d : Nat} {ds : List Nat} (h : digits base n = d :: ds) :
    d ≠ 0 := by
  have hhead := List.head?_dropWhile_not (· == 0)
    (places base ((bitLength n / base.log2 + 1).log2 + 1) n)
  have hdigits : (places base ((bitLength n / base.log2 + 1).log2 + 1) n).dropWhile (· == 0) =
      d :: ds := h
  rw [hdigits] at hhead
  simpa using hhead

theorem ofDigits_cons (base d : Nat) (ds : List Nat) :
    ofDigits base (d :: ds) = d * base ^ ds.length + ofDigits base ds := by
  have hone : ofDigits base [d] = d := by simp [ofDigits]
  rw [← List.singleton_append, ofDigits_append, hone]

theorem pow_length_le_ofDigits {base d : Nat} (hd : d ≠ 0) (ds : List Nat) :
    base ^ ds.length ≤ ofDigits base (d :: ds) := by
  rw [ofDigits_cons]
  have hmul := Nat.le_mul_of_pos_left (base ^ ds.length) (Nat.pos_of_ne_zero hd)
  omega

theorem ofDigits_lt {base : Nat} {ds : List Nat} (h : ∀ d ∈ ds, d < base) :
    ofDigits base ds < base ^ ds.length := by
  induction ds with
  | nil => exact Nat.one_pos
  | cons d ds ih =>
    have hd : d + 1 ≤ base := h d List.mem_cons_self
    have hds := ih fun e he => h e (List.mem_cons_of_mem _ he)
    have hmul := Nat.mul_le_mul_right (base ^ ds.length) hd
    rw [Nat.add_mul, Nat.one_mul] at hmul
    rw [ofDigits_cons, List.length_cons, Nat.pow_succ, Nat.mul_comm _ base]
    omega

theorem length_digits_le {base n k : Nat} (hbase : 2 ≤ base) (h : n < base ^ k) :
    (digits base n).length ≤ k := by
  cases hd : digits base n with
  | nil => exact Nat.zero_le _
  | cons d ds =>
    have hle : base ^ ds.length ≤ ofDigits base (d :: ds) :=
      pow_length_le_ofDigits (ne_zero_of_digits_eq_cons hd) ds
    rw [← hd, ofDigits_digits hbase] at hle
    exact (Nat.pow_lt_pow_iff_right hbase).1 (Nat.lt_of_le_of_lt hle h)

end Digits

theorem ofBigEndian_eq (bytes : List UInt8) :
    ofBigEndian bytes = Digits.ofDigits 256 (bytes.map UInt8.toNat) := by
  rw [ofBigEndian, Digits.ofDigits, List.foldl_map]

theorem ofBigEndian_bigEndian (n : Nat) : ofBigEndian (bigEndian n) = n := by
  have hdigits := Digits.ofDigits_digits (Nat.le_add_left 2 254) n
  unfold bigEndian
  split
  · rename_i hnil
    rw [hnil] at hdigits
    exact hdigits
  · have hbytes : (Digits.digits 256 n).map (UInt8.toNat ∘ UInt8.ofNat) = Digits.digits 256 n := by
      refine (List.map_congr_left fun d hd => ?_).trans (List.map_id _)
      exact UInt8.toNat_ofNat_of_lt' (Digits.lt_of_mem_digits (by decide) hd)
    rw [ofBigEndian_eq, List.map_map, hbytes]
    exact hdigits

theorem length_bigEndian_le {n k : Nat} (hk : 0 < k) (h : n < 256 ^ k) :
    (bigEndian n).length ≤ k := by
  have hle := Digits.length_digits_le (Nat.le_add_left 2 254) h
  unfold bigEndian
  split
  · exact hk
  · rwa [List.length_map]

theorem ofBigEndian_lt (bytes : List UInt8) : ofBigEndian bytes < 256 ^ bytes.length := by
  have hlt : ∀ d ∈ bytes.map UInt8.toNat, d < 256 := by
    intro d hd
    obtain ⟨b, -, rfl⟩ := List.mem_map.1 hd
    exact b.toNat_lt
  have hdigits := Digits.ofDigits_lt hlt
  rwa [← ofBigEndian_eq, List.length_map] at hdigits

theorem byteLength_le_iff {n k : Nat} : byteLength n ≤ k ↔ n < 256 ^ k := by
  have hpow : (256 : Nat) ^ k = 2 ^ (8 * k) := by rw [Nat.pow_mul]
  have hbits : byteLength n ≤ k ↔ bitLength n ≤ 8 * k := by
    unfold byteLength
    omega
  rw [hbits, hpow]
  unfold bitLength
  split
  · rename_i hzero
    rw [hzero]
    exact ⟨fun _ => Nat.pow_pos (by decide), fun _ => Nat.zero_le _⟩
  · rename_i hne
    exact (Nat.log2_lt hne)

end Dxb
