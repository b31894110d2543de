import Mathlib.Data.List.Induction
import Dxb.Unit

/-!
# Sums of exponents

What a product gives a unit is the sum of its exponents (`UnitProduct.exponentOf`).  The sums that
are kept while a product is gone through have two bytes, and are these sums in that arithmetic
(`ExponentSums.lookup_ofProduct`).  A product of at most 255 factors never gets beyond two bytes, so
every sum on the way is exact (`ExponentSums.toInt_of_mem`).
-/

namespace Dxb

namespace UnitProduct

/-- The sum of the exponents that a product gives a unit. -/
def exponentOf (fs : UnitProduct) (u : MeasureUnit) : Int :=
  (fs.filter (·.unit = u)).foldl (fun sum f => sum + f.exponent.toInt) 0

theorem exponentOf_cons (f : UnitFactor) (fs : UnitProduct) (u : MeasureUnit) :
    exponentOf (f :: fs) u = (if f.unit = u then f.exponent.toInt else 0) + exponentOf fs u := by
  have hfoldl : ∀ (gs : UnitProduct) (e : Int),
      gs.foldl (fun sum g => sum + g.exponent.toInt) e =
        e + gs.foldl (fun sum g => sum + g.exponent.toInt) 0 := by
    intro gs
    induction gs with
    | nil => simp
    | cons g gs ih =>
      intro e
      rw [List.foldl_cons, List.foldl_cons, ih, ih (0 + _)]
      omega
  unfold exponentOf
  by_cases h : f.unit = u
  · rw [List.filter_cons_of_pos (by simpa using h), List.foldl_cons, hfoldl, if_pos h,
      Int.zero_add]
  · rw [List.filter_cons_of_neg (by simpa using h), if_neg h, Int.zero_add]

theorem exponentOf_append (fs gs : UnitProduct) (u : MeasureUnit) :
    exponentOf (fs ++ gs) u = exponentOf fs u + exponentOf gs u := by
  induction fs with
  | nil => simp [exponentOf]
  | cons f fs ih =>
    rw [List.cons_append, exponentOf_cons, exponentOf_cons, ih]
    omega

theorem exponentOf_of_not_mem {fs : UnitProduct} {u : MeasureUnit}
    (h : u ∉ fs.map (·.unit)) : exponentOf fs u = 0 := by
  have hnone : fs.filter (·.unit = u) = [] := by
    rw [List.filter_eq_nil_iff]
    intro f hf hu
    exact h (List.mem_map.2 ⟨f, hf, of_decide_eq_true hu⟩)
  rw [exponentOf, hnone]
  rfl

/-- Each factor adds one byte at most. -/
theorem exponentOf_bounds (fs : UnitProduct) (u : MeasureUnit) :
    -(128 * (fs.length : Int)) ≤ exponentOf fs u ∧ exponentOf fs u ≤ 127 * (fs.length : Int) := by
  induction fs with
  | nil => simp [exponentOf]
  | cons f fs ih =>
    have hmin := f.exponent.le_toInt
    have hmax := f.exponent.toInt_lt
    rw [exponentOf_cons, List.length_cons]
    split <;> omega

end UnitProduct

namespace ExponentSums

open UnitProduct

/-- The sum of a unit; one that was not met has none. -/
def sumOf (sums : ExponentSums) (u : MeasureUnit) : Int16 := (sums.lookup u).getD 0

/-! ## One factor -/

/-- Adding changes the sum of one unit, or begins it. -/
theorem lookup_add (u : MeasureUnit) (e : Int8) (sums : ExponentSums) (v : MeasureUnit) :
    (add u e sums).lookup v =
      if v = u then some (sumOf sums u + e.toInt16) else sums.lookup v := by
  unfold sumOf
  induction sums with
  | nil =>
    by_cases h : v = u
    · simp [add, h]
    · simp [add, h, List.lookup_cons, beq_false_of_ne h]
  | cons s sums ih =>
    obtain ⟨w, sum⟩ := s
    unfold add
    by_cases hw : w = u
    · subst hw
      by_cases h : v = w
      · simp [h]
      · simp [h, List.lookup_cons, beq_false_of_ne h]
    · rw [if_neg hw, List.lookup_cons, List.lookup_cons, List.lookup_cons, ih,
        beq_false_of_ne (Ne.symm hw)]
      by_cases h : v = w
      · simp [h, hw]
      · simp [beq_false_of_ne h]

/-- A unit is entered once. -/
theorem units_add (u : MeasureUnit) (e : Int8) (sums : ExponentSums) :
    (add u e sums).map Prod.fst =
      if u ∈ sums.map Prod.fst then sums.map Prod.fst else sums.map Prod.fst ++ [u] := by
  induction sums with
  | nil => simp [add]
  | cons s sums ih =>
    obtain ⟨w, sum⟩ := s
    unfold add
    by_cases hw : w = u
    · simp [hw]
    · rw [if_neg hw, List.map_cons, ih]
      by_cases h : u ∈ sums.map Prod.fst
      · have hmem : u ∈ ((w, sum) :: sums).map Prod.fst := List.mem_cons_of_mem _ h
        rw [if_pos h, if_pos hmem]
        rfl
      · have hne : u ∉ ((w, sum) :: sums).map Prod.fst := by
          rw [List.map_cons, List.mem_cons, not_or]
          exact ⟨Ne.symm hw, h⟩
        rw [if_neg h, if_neg hne]
        rfl

/-! ## All factors -/

theorem ofProduct_concat (fs : UnitProduct) (f : UnitFactor) :
    ofProduct (fs ++ [f]) = step (ofProduct fs) f := by
  unfold ofProduct
  rw [List.foldl_append]
  rfl

theorem distinct_ofProduct (fs : UnitProduct) : ((ofProduct fs).map Prod.fst).Nodup := by
  induction fs using List.reverseRecOn with
  | nil => exact List.nodup_nil
  | append_singleton fs f ih =>
    rw [ofProduct_concat]
    unfold step
    split
    · exact ih
    · rw [units_add]
      split
      · exact ih
      · rename_i hnew
        rw [List.nodup_append]
        refine ⟨ih, List.pairwise_singleton _ _, fun v hv w hw heq => hnew ?_⟩
        rwa [← List.mem_singleton.1 hw, ← heq]

theorem lookup_dimensionless (fs : UnitProduct) :
    (ofProduct fs).lookup .dimensionless = none := by
  induction fs using List.reverseRecOn with
  | nil => rfl
  | append_singleton fs f ih =>
    rw [ofProduct_concat]
    unfold step
    split
    · exact ih
    · rename_i hf
      rw [lookup_add, if_neg (Ne.symm hf), ih]

/-- In the arithmetic of two bytes, what is kept for a unit is the sum of its exponents. -/
theorem sumOf_ofProduct (fs : UnitProduct) {u : MeasureUnit} (hu : u ≠ .dimensionless) :
    sumOf (ofProduct fs) u = Int16.ofInt (exponentOf fs u) := by
  induction fs using List.reverseRecOn with
  | nil => rfl
  | append_singleton fs f ih =>
    rw [ofProduct_concat, exponentOf_append, exponentOf_cons, Int16.ofInt_add, ← ih]
    unfold step
    by_cases hf : f.unit = u
    · subst hf
      rw [if_neg hu, if_pos rfl, sumOf, lookup_add, if_pos rfl, Option.getD_some]
      show _ = _ + Int16.ofInt (_ + 0)
      rw [Int.add_zero, Int16.ofInt_int8ToInt]
    · have hsame : ∀ sums : ExponentSums, sumOf (if f.unit = .dimensionless then sums else
          add f.unit f.exponent sums) u = sumOf sums u := by
        intro sums
        split
        · rfl
        · rw [sumOf, lookup_add, if_neg (Ne.symm hf)]
          rfl
      rw [hsame, if_neg hf]
      exact (Int16.add_zero _).symm

theorem mem_iff_lookup {sums : ExponentSums} (h : (sums.map Prod.fst).Nodup) {u : MeasureUnit}
    {sum : Int16} : (u, sum) ∈ sums ↔ sums.lookup u = some sum := by
  rw [List.lookup_eq_some_iff]
  constructor
  · intro hmem
    obtain ⟨before, after, rfl⟩ := List.append_of_mem hmem
    refine ⟨before, after, rfl, fun s hs => ?_⟩
    rw [List.map_append, List.map_cons] at h
    have hne := (List.nodup_append.1 h).2.2 s.1 (List.mem_map_of_mem hs) u List.mem_cons_self
    simpa using Ne.symm hne
  · rintro ⟨before, after, rfl, -⟩
    exact List.mem_append_right before List.mem_cons_self

/-- A sum stands for a unit that has a power, and is the sum of its exponents. -/
theorem of_mem_ofProduct {fs : UnitProduct} {u : MeasureUnit} {sum : Int16}
    (h : (u, sum) ∈ ofProduct fs) :
    u ≠ .dimensionless ∧ sum = Int16.ofInt (exponentOf fs u) := by
  rw [mem_iff_lookup (distinct_ofProduct fs)] at h
  have hu : u ≠ .dimensionless := by
    rintro rfl
    rw [lookup_dimensionless] at h
    cases h
  refine ⟨hu, ?_⟩
  rw [← sumOf_ofProduct fs hu, sumOf, h]
  rfl

/-- A sum that is not zero was kept. -/
theorem mem_ofProduct {fs : UnitProduct} {u : MeasureUnit} (hu : u ≠ .dimensionless)
    (h : Int16.ofInt (exponentOf fs u) ≠ 0) :
    (u, Int16.ofInt (exponentOf fs u)) ∈ ofProduct fs := by
  rw [mem_iff_lookup (distinct_ofProduct fs)]
  rw [← sumOf_ofProduct fs hu] at h ⊢
  unfold sumOf at h ⊢
  cases hsum : (ofProduct fs).lookup u with
  | none =>
    rw [hsum] at h
    exact absurd rfl h
  | some sum => rfl

/-! ## No sum is too wide -/

theorem toInt_ofInt_exponentOf {fs : UnitProduct} (h : fs.length ≤ 255) (u : MeasureUnit) :
    (Int16.ofInt (exponentOf fs u)).toInt = exponentOf fs u := by
  have hbounds := exponentOf_bounds fs u
  exact Int16.toInt_ofInt_of_le (by omega) (by omega)

/-- As long as there are no more than 255 factors, a sum is exact. -/
theorem toInt_of_mem {fs : UnitProduct} (h : fs.length ≤ 255) {u : MeasureUnit} {sum : Int16}
    (hsum : (u, sum) ∈ ofProduct fs) : sum.toInt = exponentOf fs u := by
  rw [(of_mem_ofProduct hsum).2, toInt_ofInt_exponentOf h]

end ExponentSums

end Dxb
