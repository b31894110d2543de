import Dxb.Proofs.Quantity.Display
import Dxb.Proofs.Quantity.RoundTrip

/-!
# Quantities that cannot be written

One that is halved `n` times needs `n` decimal places.  The wire has room for far more halves than a
text has for places, so a quantity can be read (`QuantityRecord.quantity?_halved`) that has no text,
neither with derived units nor in base units (`Quantity.text?_halved`, `Quantity.baseText?_halved`).
-/

namespace Dxb

/-! ## Numbers -/

namespace Ratio

/-- One, halved `n` times. -/
def halved (n : Nat) : Rat := mkRat 1 (2 ^ n)

theorem den_halved (n : Nat) : (halved n).den = 2 ^ n := by
  rw [halved, Rat.den_mkRat, if_neg (Nat.pow_pos (by decide)).ne', Int.natAbs_one,
    Nat.gcd_one_right, Nat.div_one]

theorem den_halved_dvd_iff {n k : Nat} : (halved n).den ∣ 10 ^ k ↔ n ≤ k := by
  have hdvd : 2 ^ n * 5 ^ 0 * 1 ∣ 10 ^ k ↔ 1 = 1 ∧ max n 0 ≤ k :=
    dvd_ten_pow_iff (by decide) (by decide) k
  rw [Nat.pow_zero, Nat.mul_one, Nat.mul_one, Nat.max_eq_left (Nat.zero_le n)] at hdvd
  rw [den_halved, hdvd]
  exact and_iff_right rfl

theorem text?_halved {n : Nat} (h : maxPlaces < n) : text? (halved n) = none :=
  text?_eq_none_iff.2 ⟨⟨n, den_halved_dvd_iff.2 (Nat.le_refl n)⟩, fun hdvd =>
    Nat.not_le_of_lt h (den_halved_dvd_iff.1 hdvd)⟩

end Ratio

/-! ## Quantities -/

namespace Quantity

/-- One without a unit, halved `n` times. -/
def halved (n : Nat) : Quantity := ⟨Ratio.halved n, []⟩

/-- It has a finite expansion. -/
theorem exists_dvd_halved (n : Nat) : ∃ k, (halved n).denominator ∣ 10 ^ k :=
  ⟨n, Ratio.den_halved_dvd_iff.2 (Nat.le_refl n)⟩

theorem text?_halved {n : Nat} (h : Ratio.maxPlaces < n) : (halved n).text? = none := by
  have hwhole : (UnitAlias.shorten (UnitProduct.text [])).2 = 1 := by decide
  have hvalue : (halved n).shownValue = Ratio.halved n := by
    rw [shownValue, halved, hwhole, Nat.cast_one, div_one]
  rw [text?_eq, hvalue, Ratio.text?_halved h]
  rfl

theorem baseText?_halved {n : Nat} (h : Ratio.maxPlaces < n) : (halved n).baseText? = none := by
  rw [baseText?, halved, Ratio.text?_halved h]
  rfl

theorem byteLength_two_pow_le {n k : Nat} (h : n < 8 * k) : byteLength (2 ^ n) ≤ k := by
  have hbits : (256 : Nat) ^ k = 2 ^ (8 * k) := (Nat.pow_mul 2 8 k).symm
  rw [byteLength_le_iff, hbits]
  exact Nat.pow_lt_pow_right (by decide) h

theorem ofFraction?_halved {n : Nat} (h : n < 8 * maxMagnitudeBytes) :
    ofFraction? false 1 (2 ^ n) [] = .ok (halved n) := by
  have hnumerator : byteLength 1 ≤ maxMagnitudeBytes := by decide
  have hdenominator : byteLength (2 ^ n) ≤ maxMagnitudeBytes := byteLength_two_pow_le h
  rw [ofFraction?_eq, if_neg (Nat.pow_pos (by decide)).ne', Nat.gcd_one_left, Nat.div_one,
    Nat.div_one, if_neg (Nat.not_lt_of_le hnumerator), if_neg (Nat.not_lt_of_le hdenominator)]
  rfl

end Quantity

/-! ## Records -/

namespace QuantityRecord

/-- One over a power of two, of which `k` bytes are zero. -/
def halved (k : Nat) : QuantityRecord := ⟨1, [1], 0x80 :: List.replicate k 0, []⟩

theorem ofBigEndian_halved (k : Nat) :
    ofBigEndian (0x80 :: List.replicate k 0) = 2 ^ (8 * k + 7) := by
  have hzeros : ∀ k, Digits.ofDigits 256 (List.replicate k 0) = 0 := by
    intro k
    induction k with
    | zero => rfl
    | succ k ih =>
      rw [List.replicate_succ, Digits.ofDigits_cons, ih, Nat.zero_mul]
  rw [ofBigEndian_eq, List.map_cons, List.map_replicate, Digits.ofDigits_cons, UInt8.toNat_zero,
    hzeros, List.length_replicate, Nat.add_zero, Nat.pow_add, Nat.pow_mul, Nat.mul_comm]
  rfl

theorem fits_halved {k : Nat} (h : k + 1 ≤ Quantity.maxMagnitudeBytes) : (halved k).Fits where
  numerator := by
    show 1 < 2 ^ 16
    decide
  denominator := by
    rw [halved, List.length_cons, List.length_replicate]
    exact Nat.lt_of_le_of_lt h (by decide)
  count := by
    show 0 < 256
    decide

theorem quantity?_halved {k : Nat} (h : k + 1 ≤ Quantity.maxMagnitudeBytes) :
    (halved k).quantity? = .ok (Quantity.halved (8 * k + 7)) := by
  show Quantity.ofFraction? false 1 (ofBigEndian (0x80 :: List.replicate k 0)) [] = _
  rw [ofBigEndian_halved]
  refine Quantity.ofFraction?_halved ?_
  omega

end QuantityRecord

end Dxb
