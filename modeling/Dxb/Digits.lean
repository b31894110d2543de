/-!
# Digits of large numbers

A number is cut in half until single digits are left, which stays fast for magnitudes of many
thousand digits.  Digits stand highest first.

    ofDigits b (places b k n) = n % b ^ 2 ^ k            (ofDigits_places)
    ofDigits b (digits b n) = n                          (ofDigits_digits)
-/

namespace Dxb

/-- Powers of natural numbers, found before those of any monoid. -/
@[default_instance high]
instance natPow : Pow Nat Nat := instPowNat

/-- How many binary digits a number has; zero has none. -/
def bitLength (n : Nat) : Nat := if n = 0 then 0 else n.log2 + 1

/-- How many bytes hold a number; zero needs none. -/
def byteLength (n : Nat) : Nat := (bitLength n + 7) / 8

namespace Digits

/-- The number that digits spell. -/
def ofDigits (base : Nat) (ds : List Nat) : Nat := ds.foldl (fun high d => base * high + d) 0

/-- The lowest `2 ^ k` digits of a number. -/
def places (base : Nat) : (k : Nat) → Nat → List Nat
  | 0, n => [n % base]
  | k + 1, n =>
    let half := base ^ 2 ^ k
    places base k (n / half) ++ places base k (n % half)

/-- The digits of a number without leading zeros; zero has none.  A base of at least two needs no
more digits than there are bits. -/
def digits (base n : Nat) : List Nat :=
  (places base ((bitLength n / base.log2 + 1).log2 + 1) n).dropWhile (· == 0)

/-- A number in base ten. -/
def decimal (n : Nat) : String :=
  match digits 10 n with
  | [] => "0"
  | ds => String.ofList (ds.map Nat.digitChar)

/-! ## Lemmas -/

theorem foldl_eq (base : Nat) (ds : List Nat) (high : Nat) :
    ds.foldl (fun high d => base * high + d) high = high * base ^ ds.length + ofDigits base ds := by
  induction ds generalizing high with
  | nil => simp [ofDigits]
  | cons d ds ih =>
    simp only [List.foldl_cons, ofDigits, List.length_cons]
    rw [ih, ih (base * 0 + d), Nat.pow_succ]
    simp only [Nat.mul_zero, Nat.zero_add, Nat.add_mul, Nat.add_assoc]
    congr 1
    rw [Nat.mul_comm base high, Nat.mul_assoc, Nat.mul_comm base]

theorem ofDigits_append (base : Nat) (a b : List Nat) :
    ofDigits base (a ++ b) = ofDigits base a * base ^ b.length + ofDigits base b := by
  rw [ofDigits, List.foldl_append, foldl_eq]
  rfl

@[simp] theorem length_places (base k n : Nat) : (places base k n).length = 2 ^ k := by
  induction k generalizing n with
  | zero => rfl
  | succ k ih => simp [places, ih, Nat.pow_succ, Nat.mul_two]

theorem ofDigits_places (base k n : Nat) :
    ofDigits base (places base k n) = n % base ^ 2 ^ k := by
  induction k generalizing n with
  | zero => simp [places, ofDigits]
  | succ k ih =>
    simp only [places, ofDigits_append, ih, length_places]
    rw [Nat.mod_mod, Nat.pow_succ, Nat.mul_two, Nat.pow_add, Nat.mod_mul, Nat.add_comm,
      Nat.mul_comm]

theorem ofDigits_dropWhile (base : Nat) (ds : List Nat) :
    ofDigits base (ds.dropWhile (· == 0)) = ofDigits base ds := by
  induction ds with
  | nil => rfl
  | cons d ds ih =>
    by_cases h : d = 0
    · subst h
      rw [List.dropWhile_cons_of_pos (by simp), ih]
      simp [ofDigits]
    · rw [List.dropWhile_cons_of_neg (by simpa using h)]

theorem lt_two_pow_bitLength (n : Nat) : n < 2 ^ bitLength n := by
  unfold bitLength
  split
  · omega
  · exact Nat.lt_log2_self

theorem ofDigits_digits {base : Nat} (h : 2 ≤ base) (n : Nat) :
    ofDigits base (digits base n) = n := by
  unfold digits
  rw [ofDigits_dropWhile, ofDigits_places]
  apply Nat.mod_eq_of_lt
  have hlog : 0 < base.log2 := (Nat.le_log2 (by omega)).2 (by omega)
  have hbase : 2 ^ base.log2 ≤ base := Nat.log2_self_le (by omega)
  have hk : bitLength n / base.log2 + 1 < 2 ^ ((bitLength n / base.log2 + 1).log2 + 1) :=
    Nat.lt_log2_self
  have hbits : bitLength n ≤ base.log2 * 2 ^ ((bitLength n / base.log2 + 1).log2 + 1) := by
    have hq := Nat.lt_mul_div_succ (bitLength n) hlog
    exact Nat.le_trans (Nat.le_of_lt hq) (Nat.mul_le_mul_left _ (Nat.le_of_lt hk))
  calc n < 2 ^ bitLength n := lt_two_pow_bitLength n
    _ ≤ 2 ^ (base.log2 * 2 ^ ((bitLength n / base.log2 + 1).log2 + 1)) :=
      Nat.pow_le_pow_right (by omega) hbits
    _ = (2 ^ base.log2) ^ 2 ^ ((bitLength n / base.log2 + 1).log2 + 1) := by rw [Nat.pow_mul]
    _ ≤ base ^ 2 ^ ((bitLength n / base.log2 + 1).log2 + 1) := Nat.pow_le_pow_left hbase _

end Digits

end Dxb
