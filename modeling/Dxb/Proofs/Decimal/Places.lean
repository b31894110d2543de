import Mathlib.Data.Nat.Prime.Basic
import Dxb.Decimal.Ratio

/-!
# How many decimal places a fraction needs

Twos and fives are divided out of the denominator until there are none left (`not_dvd_divideOut`).
A fraction has a finite expansion when nothing else is left, and the larger of their counts is then
the least power of ten that the denominator divides (`places?_eq_some_iff`).
-/

namespace Dxb.Ratio

/-! ## Dividing out -/

theorem divideOut_eq (p fuel count n : Nat) :
    ∃ k, (divideOut p fuel count n).1 = count + k ∧ n = p ^ k * (divideOut p fuel count n).2 := by
  induction fuel generalizing count n with
  | zero => exact ⟨0, rfl, by simp [divideOut]⟩
  | succ fuel ih =>
    unfold divideOut
    split
    · rename_i hzero
      obtain ⟨k, hk, hn⟩ := ih (count + 1) (n / p)
      refine ⟨k + 1, by omega, ?_⟩
      rw [Nat.pow_succ, Nat.mul_right_comm, ← hn]
      exact (Nat.div_mul_cancel (Nat.dvd_of_mod_eq_zero hzero)).symm
    · exact ⟨0, rfl, by simp⟩

/-- A number can be halved no more often than it has bits, so the fuel lasts. -/
theorem not_dvd_divideOut {p : Nat} (hp : 2 ≤ p) {fuel n : Nat} (count : Nat) (hpos : 0 < n)
    (hlt : n < 2 ^ fuel) : ¬ p ∣ (divideOut p fuel count n).2 := by
  induction fuel generalizing count n with
  | zero =>
    rw [Nat.pow_zero] at hlt
    omega
  | succ fuel ih =>
    unfold divideOut
    split
    · rename_i hzero
      have hle : p ≤ n := Nat.le_of_dvd hpos (Nat.dvd_of_mod_eq_zero hzero)
      have hhalf : n / p ≤ n / 2 := Nat.div_le_div_left hp (by omega)
      have hlt : n / 2 < 2 ^ fuel := by
        rw [Nat.pow_succ] at hlt
        omega
      exact ih (count + 1) (Nat.div_pos hle (by omega)) (by omega)
    · rename_i hne
      exact fun h => hne (Nat.mod_eq_zero_of_dvd h)

/-! ## Powers of ten -/

/-- What has other factors than two and five divides no power of ten. -/
theorem dvd_ten_pow_iff {a b rest : Nat} (h2 : ¬ 2 ∣ rest) (h5 : ¬ 5 ∣ rest) (j : Nat) :
    2 ^ a * 5 ^ b * rest ∣ 10 ^ j ↔ rest = 1 ∧ max a b ≤ j := by
  have hten : (10 : Nat) ^ j = 2 ^ j * 5 ^ j := by rw [← Nat.mul_pow]
  have hcoprime : Nat.Coprime 2 5 := by decide
  rw [hten]
  constructor
  · intro h
    have hrest : rest = 1 := by
      have h2 : Nat.Coprime rest 2 := ((Nat.Prime.coprime_iff_not_dvd Nat.prime_two).2 h2).symm
      have h5 : Nat.Coprime rest 5 := ((Nat.Prime.coprime_iff_not_dvd Nat.prime_five).2 h5).symm
      exact Nat.Coprime.eq_one_of_dvd ((h2.pow_right j).mul_right (h5.pow_right j))
        (dvd_of_mul_left_dvd h)
    rw [hrest, Nat.mul_one] at h
    have htwos : 2 ^ a ∣ 2 ^ j := (hcoprime.pow a j).dvd_of_dvd_mul_right
      (dvd_of_mul_right_dvd h)
    have hfives : 5 ^ b ∣ 5 ^ j := (hcoprime.symm.pow b j).dvd_of_dvd_mul_left
      (dvd_of_mul_left_dvd h)
    exact ⟨hrest, Nat.max_le.2 ⟨(Nat.pow_dvd_pow_iff_le_right (by decide)).1 htwos,
      (Nat.pow_dvd_pow_iff_le_right (by decide)).1 hfives⟩⟩
  · rintro ⟨rfl, hle⟩
    rw [Nat.mul_one]
    exact Nat.mul_dvd_mul (Nat.pow_dvd_pow 2 (Nat.le_trans (Nat.le_max_left a b) hle))
      (Nat.pow_dvd_pow 5 (Nat.le_trans (Nat.le_max_right a b) hle))

theorem exists_places?_eq {den : Nat} (h : den ≠ 0) :
    ∃ a b rest, (∀ j, den ∣ 10 ^ j ↔ rest = 1 ∧ max a b ≤ j) ∧
      places? den = if rest = 1 then some (max a b) else none := by
  obtain ⟨a, ha, htwos⟩ := divideOut_eq 2 (bitLength den) 0 den
  have h2 := not_dvd_divideOut (Nat.le_refl 2) 0 (Nat.pos_of_ne_zero h)
    (Digits.lt_two_pow_bitLength den)
  unfold places?
  generalize divideOut 2 (bitLength den) 0 den = halved at ha htwos h2 ⊢
  obtain ⟨twos, odd⟩ := halved
  dsimp only at ha htwos h2 ⊢
  have hodd : 0 < odd := by
    refine Nat.pos_of_ne_zero fun hzero => h ?_
    rw [htwos, hzero, Nat.mul_zero]
  have hle : odd ≤ den := htwos ▸ Nat.le_mul_of_pos_left odd (Nat.pow_pos (by decide))
  obtain ⟨b, hb, hfives⟩ := divideOut_eq 5 (bitLength den) 0 odd
  have h5 := not_dvd_divideOut (p := 5) (by decide) 0 hodd
    (Nat.lt_of_le_of_lt hle (Digits.lt_two_pow_bitLength den))
  generalize divideOut 5 (bitLength den) 0 odd = divided at hb hfives h5 ⊢
  obtain ⟨fives, rest⟩ := divided
  dsimp only at hb hfives h5 ⊢
  refine ⟨a, b, rest, fun j => ?_, ?_⟩
  · have h2rest : ¬ 2 ∣ rest := fun hdvd => h2 (hfives ▸ Nat.dvd_mul_left_of_dvd hdvd _)
    rw [htwos, hfives, ← Nat.mul_assoc]
    exact dvd_ten_pow_iff h2rest h5 j
  · rw [ha, hb, Nat.zero_add, Nat.zero_add]

/-- The number of places is the least power of ten that the denominator divides. -/
theorem places?_eq_some_iff {den k : Nat} (h : den ≠ 0) :
    places? den = some k ↔ den ∣ 10 ^ k ∧ ∀ j, den ∣ 10 ^ j → k ≤ j := by
  obtain ⟨a, b, rest, hdvd, hplaces⟩ := exists_places?_eq h
  rw [hplaces]
  constructor
  · intro hsome
    split at hsome
    · rename_i hrest
      obtain rfl := Option.some.inj hsome
      exact ⟨(hdvd _).2 ⟨hrest, Nat.le_refl _⟩, fun j hj => ((hdvd j).1 hj).2⟩
    · cases hsome
  · rintro ⟨hk, hleast⟩
    obtain ⟨hrest, hle⟩ := (hdvd k).1 hk
    rw [if_pos hrest, Nat.le_antisymm hle (hleast _ ((hdvd _).2 ⟨hrest, Nat.le_refl _⟩))]

theorem places?_eq_none_iff {den : Nat} (h : den ≠ 0) :
    places? den = none ↔ ¬ ∃ k, den ∣ 10 ^ k := by
  obtain ⟨a, b, rest, hdvd, hplaces⟩ := exists_places?_eq h
  rw [hplaces]
  by_cases hrest : rest = 1
  · rw [if_pos hrest]
    exact iff_of_false nofun fun hnone => hnone ⟨_, (hdvd _).2 ⟨hrest, Nat.le_refl _⟩⟩
  · rw [if_neg hrest]
    exact iff_of_true rfl fun ⟨k, hk⟩ => hrest ((hdvd k).1 hk).1

/-- More than `n` places are needed where the denominator divides a power of ten, but not the
`n`-th. -/
theorem exists_lt_places?_iff {den n : Nat} (h : den ≠ 0) :
    (∃ k, places? den = some k ∧ n < k) ↔ (∃ k, den ∣ 10 ^ k) ∧ ¬ den ∣ 10 ^ n := by
  constructor
  · rintro ⟨k, hplaces, hlt⟩
    obtain ⟨hdvd, hleast⟩ := (places?_eq_some_iff h).1 hplaces
    exact ⟨⟨k, hdvd⟩, fun hn => Nat.not_le_of_lt hlt (hleast n hn)⟩
  · rintro ⟨hsome, hn⟩
    cases hplaces : places? den with
    | none => exact absurd hsome ((places?_eq_none_iff h).1 hplaces)
    | some k =>
      have hdvd := ((places?_eq_some_iff h).1 hplaces).1
      refine ⟨k, rfl, Nat.lt_of_not_le fun hle => hn ?_⟩
      exact Nat.dvd_trans hdvd (Nat.pow_dvd_pow 10 hle)

/-- With one place less the number would be no whole one, so its last digit is not zero. -/
theorem not_ten_dvd {n den k : Nat} (hden : den ≠ 0) (hreduced : Nat.Coprime n den)
    (hplaces : places? den = some (k + 1)) : ¬ 10 ∣ n * 10 ^ (k + 1) / den := by
  obtain ⟨hdvd, hleast⟩ := (places?_eq_some_iff hden).1 hplaces
  rintro ⟨m, hm⟩
  have hwhole : n * 10 ^ (k + 1) = den * (10 * m) := by
    rw [← hm, Nat.mul_div_cancel' (Nat.dvd_mul_left_of_dvd hdvd n)]
  have hshorter : n * 10 ^ k = den * m := by
    rw [Nat.pow_succ] at hwhole
    have hten : 10 * (n * 10 ^ k) = 10 * (den * m) := by
      calc 10 * (n * 10 ^ k) = n * (10 ^ k * 10) := by rw [Nat.mul_comm, Nat.mul_assoc]
        _ = den * (10 * m) := hwhole
        _ = 10 * (den * m) := Nat.mul_left_comm _ _ _
    exact Nat.eq_of_mul_eq_mul_left (by decide) hten
  have hle := hleast k (hreduced.symm.dvd_of_dvd_mul_left ⟨m, hshorter⟩)
  omega

end Dxb.Ratio
