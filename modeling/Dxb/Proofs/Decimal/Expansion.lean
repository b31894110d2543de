import Dxb.Proofs.Decimal.Reading

/-!
# Numbers that are written as decimals

A rational number is written as a decimal, with as few places as there can be and a digit on either
side of the point, if and only if its denominator divides a power of ten
(`Ratio.isDecimal_written_iff`).  Any other is written as a fraction (`Ratio.written_of_not_dvd`).
-/

namespace Dxb.Ratio

open Digits

/-! ## Decimals -/

/-- Digits, one at least. -/
def IsNumeral (text : List Char) : Prop := text ≠ [] ∧ ∀ c ∈ text, c.isDigit = true

/-- A whole number, or one with decimal places of which the last is not zero. -/
inductive IsUnsigned : List Char → Prop
  | whole {digits : List Char} (h : IsNumeral digits) : IsUnsigned digits
  | places {whole behind : List Char} (hwhole : IsNumeral whole) (hbehind : IsNumeral behind)
      (hlast : behind.getLast? ≠ some '0') : IsUnsigned (whole ++ '.' :: behind)

/-- A finite decimal, with a minus sign or without. -/
def IsDecimal (text : List Char) : Prop :=
  IsUnsigned text ∨ ∃ unsigned, text = '-' :: unsigned ∧ IsUnsigned unsigned

theorem IsNumeral.slash_not_mem {text : List Char} (h : IsNumeral text) : '/' ∉ text :=
  fun hmem => absurd (h.2 '/' hmem) (by decide)

theorem IsUnsigned.slash_not_mem {text : List Char} (h : IsUnsigned text) : '/' ∉ text := by
  cases h with
  | whole h => exact h.slash_not_mem
  | places hwhole hbehind _ =>
    intro hmem
    rcases List.mem_append.1 hmem with hmem | hmem
    · exact hwhole.slash_not_mem hmem
    · rcases List.mem_cons.1 hmem with heq | hmem
      · exact absurd heq (by decide)
      · exact hbehind.slash_not_mem hmem

theorem IsDecimal.slash_not_mem {text : List Char} (h : IsDecimal text) : '/' ∉ text := by
  rcases h with h | ⟨unsigned, rfl, h⟩
  · exact h.slash_not_mem
  · intro hmem
    rcases List.mem_cons.1 hmem with heq | hmem
    · exact absurd heq (by decide)
    · exact h.slash_not_mem hmem

/-! ## Decimal places -/

/-- Digits that end in zero spell a multiple of ten. -/
theorem ten_dvd_value {text : List Char} (h : text.getLast? = some '0') : 10 ∣ value text := by
  obtain ⟨front, rfl⟩ := List.getLast?_eq_some_iff.1 h
  rw [value_append]
  exact ⟨value front, by rw [Nat.mul_comm]; rfl⟩

theorem isUnsigned_fixed {n : Nat} (places : Nat) (h : places ≠ 0 → ¬ 10 ∣ n) :
    IsUnsigned (fixed n places).toList := by
  by_cases hzero : places = 0
  · obtain ⟨hne, hdigits, -⟩ := toList_decimal n
    rw [hzero, fixed_zero]
    exact .whole ⟨hne, hdigits⟩
  · obtain ⟨whole, behind, htext, hwhole, hbehind, hlength, hsum⟩ := exists_fixed_eq n hzero
    rw [htext]
    refine .places hwhole hbehind fun hlast => h hzero ?_
    have hpow : 10 ∣ 10 ^ places := dvd_pow_self 10 hzero
    rw [← hsum]
    exact Nat.dvd_add (Nat.dvd_mul_left_of_dvd hpow _) (ten_dvd_value hlast)

theorem isUnsigned_magnitude {r : Rat} {k : Nat} (h : places? r.den = some k) :
    IsUnsigned (magnitude r).toList := by
  unfold magnitude
  rw [h]
  refine isUnsigned_fixed k fun hne => ?_
  obtain ⟨k, rfl⟩ := Nat.exists_eq_succ_of_ne_zero hne
  exact not_ten_dvd r.den_nz r.reduced h

/-! ## The text of a number -/

theorem toList_written (r : Rat) :
    (written r).toList = (if r.num < 0 then ['-'] else []) ++ (magnitude r).toList := by
  rw [written, String.toList_append]
  split <;> rfl

/-- What has no finite expansion is written as a fraction. -/
theorem written_of_not_dvd {r : Rat} (h : ¬ ∃ k, r.den ∣ 10 ^ k) :
    written r = (if r.num < 0 then "-" else "") ++ Digits.decimal r.num.natAbs ++ "/" ++
      Digits.decimal r.den := by
  unfold written magnitude
  rw [(places?_eq_none_iff r.den_nz).2 h, ← String.append_assoc, ← String.append_assoc]

theorem isDecimal_written_iff (r : Rat) : IsDecimal (written r).toList ↔ ∃ k, r.den ∣ 10 ^ k := by
  constructor
  · intro h
    by_contra hnone
    apply h.slash_not_mem
    rw [written_of_not_dvd hnone]
    simp only [String.toList_append, List.mem_append]
    exact .inl (.inr (by decide))
  · intro h
    obtain ⟨k, hplaces⟩ : ∃ k, places? r.den = some k := by
      rw [← Option.isSome_iff_exists, ← Option.ne_none_iff_isSome]
      exact fun hnone => (places?_eq_none_iff r.den_nz).1 hnone h
    have hunsigned := isUnsigned_magnitude hplaces
    rw [toList_written]
    split
    · exact .inr ⟨_, rfl, hunsigned⟩
    · exact .inl hunsigned

theorem written_injective {r s : Rat} (h : written r = written s) : r = s := by
  have hread := ofText?_written r
  rw [h, ofText?_written] at hread
  exact (Option.some.inj hread).symm

end Dxb.Ratio
