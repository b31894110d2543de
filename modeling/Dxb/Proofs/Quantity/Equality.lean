import Mathlib.Algebra.Field.Rat
import Mathlib.Data.Nat.Cast.Field
import Mathlib.Data.Rat.Lemmas
import Dxb.Proofs.Quantity.RoundTrip

/-!
# When quantities are equal

A quantity is made of a sign, two magnitudes and a list of unit factors, and keeps no more of these
than a number and what is left of each unit's exponents (`Quantity.eq_of_ofFraction?`).  So two
quantities are equal if and only if their fractions are, and their units have the same powers as far
as these are kept (`Quantity.eq_iff_alike`): neither the way in which a fraction or a product is
written down nor the sign of zero matters.
-/

namespace Dxb

namespace UnitProduct

/-! ## Products that are written differently -/

/-- The same product, written in another way: its factors in another order, powers of a unit put
together or apart, and factors that count for nothing put in or left out. -/
inductive Rewritten : UnitProduct → UnitProduct → Prop
  | swap (f g : UnitFactor) (fs : UnitProduct) : Rewritten (f :: g :: fs) (g :: f :: fs)
  | join (u : MeasureUnit) {a b e : Int8} (h : e.toInt = a.toInt + b.toInt) (fs : UnitProduct) :
      Rewritten (⟨u, a⟩ :: ⟨u, b⟩ :: fs) (⟨u, e⟩ :: fs)
  | zero (u : MeasureUnit) (fs : UnitProduct) : Rewritten (⟨u, 0⟩ :: fs) fs
  | dimensionless (e : Int8) (fs : UnitProduct) : Rewritten (⟨.dimensionless, e⟩ :: fs) fs
  | cons (f : UnitFactor) {fs gs : UnitProduct} (h : Rewritten fs gs) :
      Rewritten (f :: fs) (f :: gs)
  | refl (fs : UnitProduct) : Rewritten fs fs
  | symm {fs gs : UnitProduct} (h : Rewritten fs gs) : Rewritten gs fs
  | trans {fs gs hs : UnitProduct} (h : Rewritten fs gs) (h' : Rewritten gs hs) : Rewritten fs hs

theorem Rewritten.exponentOf_eq {fs gs : UnitProduct} (h : Rewritten fs gs) {u : MeasureUnit}
    (hu : u ≠ .dimensionless) : exponentOf fs u = exponentOf gs u := by
  induction h with
  | swap f g fs =>
    rw [exponentOf_cons, exponentOf_cons, exponentOf_cons, exponentOf_cons]
    omega
  | join v h fs =>
    rw [exponentOf_cons, exponentOf_cons, exponentOf_cons]
    dsimp only
    split <;> omega
  | zero v fs =>
    have hzero : (0 : Int8).toInt = 0 := rfl
    rw [exponentOf_cons]
    dsimp only
    split <;> omega
  | dimensionless e fs => rw [exponentOf_cons, if_neg (Ne.symm hu), Int.zero_add]
  | cons f _ ih => rw [exponentOf_cons, exponentOf_cons, ih]
  | refl fs => rfl
  | symm _ ih => exact ih.symm
  | trans _ _ ih ih' => exact ih.trans ih'

theorem Rewritten.normalize_eq {fs gs : UnitProduct} (h : Rewritten fs gs) :
    fs.normalize = gs.normalize := by
  refine (normal_normalize fs).ext (normal_normalize gs) fun u hu => ?_
  rw [exponentOf_normalize fs hu, exponentOf_normalize gs hu, h.exponentOf_eq hu]

/-! ## Products with the same powers -/

/-- Both products give each unit the same power, as far as it is kept. -/
def SameDimension (fs gs : UnitProduct) : Prop :=
  ∀ u, u ≠ .dimensionless → saturate (exponentOf fs u) = saturate (exponentOf gs u)

theorem exponentOf_normalize_of_length {fs : UnitProduct} (h : fs.length ≤ 255) {u : MeasureUnit}
    (hu : u ≠ .dimensionless) : exponentOf fs.normalize u = saturate (exponentOf fs u) := by
  rw [exponentOf_normalize fs hu, ExponentSums.toInt_ofInt_exponentOf h]

theorem normalize_eq_iff {fs gs : UnitProduct} (hfs : fs.length ≤ 255) (hgs : gs.length ≤ 255) :
    fs.normalize = gs.normalize ↔ SameDimension fs gs := by
  constructor
  · intro h u hu
    rw [← exponentOf_normalize_of_length hfs hu, h, exponentOf_normalize_of_length hgs hu]
  · intro h
    refine (normal_normalize fs).ext (normal_normalize gs) fun u hu => ?_
    rw [exponentOf_normalize_of_length hfs hu, exponentOf_normalize_of_length hgs hu, h u hu]

end UnitProduct

namespace Quantity

open UnitProduct

/-! ## What a quantity keeps -/

/-- The number that a sign and two magnitudes stand for. -/
def fraction (negative : Bool) (numerator denominator : Nat) : Rat :=
  (if negative then -(numerator : Rat) else numerator) / denominator

theorem mkRat_eq_fraction (negative : Bool) (numerator denominator : Nat) :
    mkRat (if negative then -numerator else numerator) denominator =
      fraction negative numerator denominator := by
  rw [Rat.mkRat_eq_div, fraction]
  cases negative <;> simp

theorem fraction_mul_left (negative : Bool) (numerator denominator : Nat) {k : Nat} (hk : k ≠ 0) :
    fraction negative (k * numerator) (k * denominator) =
      fraction negative numerator denominator := by
  have hk : (k : Rat) ≠ 0 := Nat.cast_ne_zero.2 hk
  unfold fraction
  push_cast
  split
  · rw [← mul_neg, mul_div_mul_left _ _ hk]
  · rw [mul_div_mul_left _ _ hk]

theorem fraction_zero (negative : Bool) (denominator : Nat) :
    fraction negative 0 denominator = 0 := by
  cases negative <;> simp [fraction]

section

variable {negative negative' : Bool} {numerator denominator numerator' denominator' : Nat}
  {fs gs : UnitProduct} {q q' : Quantity}

theorem eq_of_ofFraction? (h : ofFraction? negative numerator denominator fs = .ok q) :
    denominator ≠ 0 ∧ q = ⟨fraction negative numerator denominator, fs.normalize⟩ := by
  rw [ofFraction?_eq] at h
  split at h
  · cases h
  · rename_i hne
    split at h
    · cases h
    · split at h
      · cases h
      · cases h
        rw [mkRat_eq_fraction]
        exact ⟨hne, rfl⟩

/-- A quantity is made, or not made, of a fraction and a product in normal form. -/
theorem ofFraction?_congr (hne : denominator ≠ 0) (hne' : denominator' ≠ 0)
    (hvalue : fraction negative numerator denominator = fraction negative' numerator' denominator')
    (hunit : fs.normalize = gs.normalize) :
    ofFraction? negative numerator denominator fs =
      ofFraction? negative' numerator' denominator' gs := by
  unfold ofFraction?
  rw [if_neg hne, if_neg hne', mkRat_eq_fraction, mkRat_eq_fraction, hvalue, hunit]

/-- Quantities are equal when all that they are asked for is. -/
theorem eq_iff_parts (q q' : Quantity) : q = q' ↔ q.isNegative = q'.isNegative ∧
    q.numerator = q'.numerator ∧ q.denominator = q'.denominator ∧ q.unit = q'.unit := by
  constructor
  · rintro rfl
    exact ⟨rfl, rfl, rfl, rfl⟩
  · rintro ⟨hsign, hnum, hden, hunit⟩
    have hsign : q.value.num < 0 ↔ q'.value.num < 0 := decide_eq_decide.1 hsign
    have hnum : q.value.num.natAbs = q'.value.num.natAbs := hnum
    exact Quantity.ext (Rat.ext (by omega) hden) hunit

/-- Two quantities are equal, part by part, if and only if their fractions are the same number and
their units have the same powers as far as these are kept.  So a quantity does not depend on how its
product is written, on a common factor of its magnitudes or on the sign of zero; a product in normal
form stays as it is; and no sum of exponents on the way to it is beyond two bytes. -/
theorem eq_iff_alike (hfs : fs.length ≤ 255) (hgs : gs.length ≤ 255)
    (h : ofFraction? negative numerator denominator fs = .ok q)
    (h' : ofFraction? negative' numerator' denominator' gs = .ok q') :
    ((q = q' ↔ q.isNegative = q'.isNegative ∧ q.numerator = q'.numerator ∧
        q.denominator = q'.denominator ∧ q.unit = q'.unit) ∧
      (q = q' ↔ fraction negative numerator denominator =
        fraction negative' numerator' denominator' ∧ SameDimension fs gs)) ∧
    (∀ hs, Rewritten fs hs → ofFraction? negative numerator denominator hs = .ok q) ∧
    (∀ k, k ≠ 0 → ofFraction? negative (k * numerator) (k * denominator) fs = .ok q) ∧
    (numerator = 0 → ofFraction? (!negative) numerator denominator fs = .ok q) ∧
    (q.unit = fs.normalize ∧ ∀ hs : UnitProduct, hs.normalize.IsNormal ∧
      (hs.IsNormal → hs.normalize = hs)) ∧
    ∀ part, part <+: fs → ∀ u sum, (u, sum) ∈ ExponentSums.ofProduct part →
      sum.toInt = exponentOf part u := by
  obtain ⟨hne, rfl⟩ := eq_of_ofFraction? h
  obtain ⟨-, rfl⟩ := eq_of_ofFraction? h'
  refine ⟨⟨eq_iff_parts _ _, ?_⟩, ?_, ?_, ?_, ⟨rfl, ?_⟩, ?_⟩
  · rw [Quantity.mk.injEq, normalize_eq_iff hfs hgs]
  · intro hs hrewritten
    rw [← h]
    exact ofFraction?_congr hne hne rfl hrewritten.normalize_eq.symm
  · intro k hk
    rw [← h]
    exact ofFraction?_congr (Nat.mul_ne_zero hk hne) hne (fraction_mul_left _ _ _ hk) rfl
  · rintro rfl
    rw [← h]
    refine ofFraction?_congr hne hne ?_ rfl
    rw [fraction_zero, fraction_zero]
  · intro hs
    exact ⟨normal_normalize hs, fun hnormal => hnormal.normalize_eq_self⟩
  · intro part hpart u sum hsum
    exact ExponentSums.toInt_of_mem (Nat.le_trans hpart.length_le hfs) hsum

end

/-- The 132nd power of a metre is kept as the 127th. -/
theorem eq_iff_alike_of_saturated :
    ∃ q, ofFraction? true 6 8 [⟨.metre, 127⟩, ⟨.second, 1⟩, ⟨.metre, 5⟩, ⟨.second, -1⟩] = .ok q ∧
      ofFraction? true 3 4 [⟨.metre, 127⟩, ⟨.dimensionless, 2⟩] = .ok q ∧
      SameDimension [⟨.metre, 127⟩, ⟨.second, 1⟩, ⟨.metre, 5⟩, ⟨.second, -1⟩]
        [⟨.metre, 127⟩, ⟨.dimensionless, 2⟩] := by
  let q : Quantity := ⟨mkRat (-3) 4, [⟨.metre, 127⟩]⟩
  have hq : ofFraction? true 6 8
      [⟨.metre, 127⟩, ⟨.second, 1⟩, ⟨.metre, 5⟩, ⟨.second, -1⟩] = .ok q := by decide +kernel
  have hq' : ofFraction? true 3 4 [⟨.metre, 127⟩, ⟨.dimensionless, 2⟩] = .ok q := by
    decide +kernel
  have halike := (eq_iff_alike (by decide) (by decide) hq hq').1.2.1 rfl
  exact ⟨q, hq, hq', halike.2⟩

end Quantity

end Dxb
