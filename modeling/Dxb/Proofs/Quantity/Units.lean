import Mathlib.Data.List.Perm.Subperm
import Dxb.Proofs.Quantity.Sums

/-!
# Products of units in normal form

A product is normal when it has each unit at most once, no zero exponent, the positive exponents in
front, and both groups by descending code.  Normalizing gives a normal product
(`normal_normalize`) and leaves one that is normal as it is (`IsNormal.normalize_eq_self`): two
normal products with the same factors are equal, since their order is fixed.
-/

namespace Dxb

namespace UnitFactor

/-- Positive exponents stand in front, and each group is by descending code. -/
def Before (f g : UnitFactor) : Prop :=
  (0 < f.exponent ∧ g.exponent < 0) ∨
    ((0 < f.exponent ↔ 0 < g.exponent) ∧ g.unit.code < f.unit.code)

theorem Before.ne {f g : UnitFactor} (h : f.Before g) : f ≠ g := by
  rintro rfl
  rcases h with ⟨hpos, hneg⟩ | ⟨-, hcode⟩
  · rw [Int8.lt_iff_toInt_lt] at hpos hneg
    omega
  · exact absurd hcode (UInt8.lt_irrefl _)

theorem Before.asymm {f g : UnitFactor} (h : f.Before g) : ¬ g.Before f := by
  intro h'
  simp only [Before, Int8.lt_iff_toInt_lt, UInt8.lt_iff_toNat_lt] at h h'
  omega

end UnitFactor

/-! ## Clamped exponents -/

/-- What is left of a sum of exponents in one byte. -/
def saturate (e : Int) : Int := max (-128) (min 127 e)

theorem toInt_ofIntClamp (e : Int) : (Int8.ofIntClamp e).toInt = saturate e := by
  have hmin : Int8.minValue.toInt = -128 := rfl
  have hmax : Int8.maxValue.toInt = 127 := rfl
  unfold Int8.ofIntClamp saturate
  split
  · split
    · rw [Int8.toInt_ofIntLE]
      omega
    · omega
  · omega

theorem saturate_eq_self_iff {e : Int} : saturate e = e ↔ -128 ≤ e ∧ e ≤ 127 := by
  unfold saturate
  omega

namespace UnitProduct

structure IsNormal (fs : UnitProduct) : Prop where
  exponent_ne : ∀ f ∈ fs, f.exponent ≠ 0
  unit_ne : ∀ f ∈ fs, f.unit ≠ .dimensionless
  distinct : (fs.map (·.unit)).Nodup
  ordered : fs.Pairwise UnitFactor.Before

/-- The units other than the dimensionless one. -/
def powered : List MeasureUnit :=
  [.unyt, .calendarMonth, .yen, .yuan, .rouble, .pound, .usDollar, .euro, .candela, .mole,
    .kelvin, .ampere, .gram, .metre, .second]

theorem mem_powered_iff {u : MeasureUnit} : u ∈ powered ↔ u ≠ .dimensionless := by
  cases u <;> decide

theorem nodup_of_ordered {fs : UnitProduct} (h : fs.Pairwise UnitFactor.Before) : fs.Nodup :=
  h.imp UnitFactor.Before.ne

/-! ## Sorting -/

/-- The place of a factor: those with a higher one precede it. -/
def rank (f : UnitFactor) : Nat :=
  if 0 < f.exponent then 256 + f.unit.code.toNat else f.unit.code.toNat

theorem precedes_iff (f g : UnitFactor) : f.precedes g = true ↔ rank g < rank f := by
  have hf := f.unit.code.toNat_lt
  have hg := g.unit.code.toNat_lt
  unfold UnitFactor.precedes rank
  by_cases hfpos : 0 < f.exponent
  · by_cases hgpos : 0 < g.exponent
    · simp [hfpos, hgpos, UInt8.lt_iff_toNat_lt]
    · simp only [hfpos, hgpos, decide_true, decide_false, if_true, if_false, Bool.true_eq_false,
        true_iff]
      omega
  · by_cases hgpos : 0 < g.exponent
    · simp only [hfpos, hgpos, decide_true, decide_false, if_true, if_false, Bool.false_eq_true,
        false_iff]
      omega
    · simp [hfpos, hgpos, UInt8.lt_iff_toNat_lt]

theorem place_perm (f : UnitFactor) (fs : UnitProduct) : (place f fs).Perm (f :: fs) := by
  induction fs with
  | nil => exact List.Perm.refl _
  | cons g fs ih =>
    unfold place
    split
    · exact (ih.cons g).trans (List.Perm.swap f g fs)
    · exact List.Perm.refl _

theorem sorted_perm (fs : UnitProduct) : (sorted fs).Perm fs := by
  induction fs with
  | nil => exact List.Perm.refl _
  | cons f fs ih => exact (place_perm f (sorted fs)).trans (ih.cons f)

theorem pairwise_place (f : UnitFactor) {fs : UnitProduct}
    (h : fs.Pairwise fun g g' => rank g' ≤ rank g) :
    (place f fs).Pairwise fun g g' => rank g' ≤ rank g := by
  induction fs with
  | nil => exact List.pairwise_singleton _ _
  | cons g fs ih =>
    obtain ⟨hg, hfs⟩ := List.pairwise_cons.1 h
    unfold place
    split
    · rename_i hlt
      rw [precedes_iff] at hlt
      refine List.pairwise_cons.2 ⟨fun g' hg' => ?_, ih hfs⟩
      rcases List.mem_cons.1 ((place_perm f fs).mem_iff.1 hg') with rfl | hg'
      · omega
      · exact hg g' hg'
    · rename_i hle
      rw [precedes_iff] at hle
      refine List.pairwise_cons.2 ⟨fun g' hg' => ?_, h⟩
      rcases List.mem_cons.1 hg' with rfl | hg'
      · omega
      · have hrank := hg g' hg'
        omega

theorem pairwise_sorted (fs : UnitProduct) :
    (sorted fs).Pairwise fun g g' => rank g' ≤ rank g := by
  induction fs with
  | nil => exact List.Pairwise.nil
  | cons f fs ih => exact pairwise_place f ih

/-- Factors with different units and no zero exponents stand in a strict order. -/
theorem before_of_rank_le {f g : UnitFactor} (hg : g.exponent ≠ 0) (hunit : f.unit ≠ g.unit)
    (h : rank g ≤ rank f) : f.Before g := by
  have hcode : f.unit.code.toNat ≠ g.unit.code.toNat := fun heq =>
    hunit (MeasureUnit.code_inj (UInt8.toNat_inj.1 heq))
  have hfcode := f.unit.code.toNat_lt
  have hgcode := g.unit.code.toNat_lt
  have hne : g.exponent.toInt ≠ 0 := fun h => hg (Int8.toInt_inj.1 h)
  have hzero : (0 : Int8).toInt = 0 := rfl
  simp only [UnitFactor.Before, rank, Int8.lt_iff_toInt_lt, UInt8.lt_iff_toNat_lt, hzero] at h ⊢
  split at h <;> split at h <;> omega

/-! ## Normalizing gives a normal product -/

theorem mem_normalize_iff {fs : UnitProduct} {f : UnitFactor} :
    f ∈ fs.normalize ↔ f.unit ≠ .dimensionless ∧ Int16.ofInt (exponentOf fs f.unit) ≠ 0 ∧
      f.exponent = Int8.ofIntClamp (Int16.ofInt (exponentOf fs f.unit)).toInt := by
  unfold normalize
  rw [(sorted_perm _).mem_iff, List.mem_map]
  constructor
  · rintro ⟨⟨u, sum⟩, hmem, rfl⟩
    obtain ⟨hmem, hne⟩ := List.mem_filter.1 hmem
    obtain ⟨hu, rfl⟩ := ExponentSums.of_mem_ofProduct hmem
    exact ⟨hu, of_decide_eq_true hne, rfl⟩
  · rintro ⟨hu, hne, hexp⟩
    refine ⟨(f.unit, Int16.ofInt (exponentOf fs f.unit)), ?_, ?_⟩
    · exact List.mem_filter.2 ⟨ExponentSums.mem_ofProduct hu hne, decide_eq_true hne⟩
    · obtain ⟨u, e⟩ := f
      exact congrArg (UnitFactor.mk u) hexp.symm

theorem normal_normalize (fs : UnitProduct) : fs.normalize.IsNormal := by
  have hnonzero : ∀ f ∈ fs.normalize, f.exponent ≠ 0 := by
    intro f hf hzero
    obtain ⟨-, hne, hexp⟩ := mem_normalize_iff.1 hf
    have hsum : (Int16.ofInt (exponentOf fs f.unit)).toInt ≠ 0 := fun h =>
      hne (Int16.toInt_inj.1 h)
    have hclamped := congrArg Int8.toInt hexp
    rw [hzero, toInt_ofIntClamp, show (0 : Int8).toInt = 0 from rfl, saturate] at hclamped
    omega
  have hdistinct : (fs.normalize.map (·.unit)).Nodup := by
    unfold normalize
    rw [((sorted_perm _).map _).nodup_iff, List.map_map]
    exact (ExponentSums.distinct_ofProduct fs).sublist (List.filter_sublist.map _)
  refine ⟨hnonzero, fun f hf => (mem_normalize_iff.1 hf).1, hdistinct, ?_⟩
  have hunits := List.pairwise_map.1 hdistinct
  refine List.Pairwise.imp_of_mem ?_ (hunits.and (pairwise_sorted _))
  intro f g _ hg h
  exact before_of_rank_le (hnonzero g hg) h.1 h.2

/-! ## What a normal product gives a unit -/

theorem exponentOf_of_mem {fs : UnitProduct} (h : (fs.map (·.unit)).Nodup) {f : UnitFactor}
    (hf : f ∈ fs) : exponentOf fs f.unit = f.exponent.toInt := by
  have hone : fs.filter (·.unit = f.unit) = [f] := by
    induction fs with
    | nil => cases hf
    | cons g fs ih =>
      rw [List.map_cons, List.nodup_cons] at h
      rcases List.mem_cons.1 hf with rfl | hf
      · have hnone : fs.filter (·.unit = f.unit) = [] := by
          rw [List.filter_eq_nil_iff]
          intro x hx hu
          exact h.1 (List.mem_map.2 ⟨x, hx, of_decide_eq_true hu⟩)
        rw [List.filter_cons, if_pos (decide_eq_true rfl), hnone]
      · have hne : g.unit ≠ f.unit := fun heq => h.1 (List.mem_map.2 ⟨f, hf, heq.symm⟩)
        rw [List.filter_cons_of_neg (by simpa using hne), ih h.2 hf]
  rw [exponentOf, hone]
  exact Int.zero_add _

/-- The factors of a normal product are the powers that it gives the units. -/
theorem IsNormal.mem_iff {fs : UnitProduct} (h : fs.IsNormal) {f : UnitFactor} :
    f ∈ fs ↔ f.unit ≠ .dimensionless ∧ f.exponent ≠ 0 ∧
      f.exponent.toInt = exponentOf fs f.unit := by
  constructor
  · intro hf
    exact ⟨h.unit_ne f hf, h.exponent_ne f hf, (exponentOf_of_mem h.distinct hf).symm⟩
  · rintro ⟨-, hne, hexp⟩
    have hmem : f.unit ∈ fs.map (·.unit) := by
      by_contra hno
      rw [exponentOf_of_not_mem hno] at hexp
      exact hne (Int8.toInt_inj.1 hexp)
    obtain ⟨g, hg, hunit⟩ := List.mem_map.1 hmem
    rw [← hunit, exponentOf_of_mem h.distinct hg] at hexp
    obtain ⟨u, e⟩ := f
    obtain ⟨v, e'⟩ := g
    obtain rfl : v = u := hunit
    obtain rfl : e = e' := Int8.toInt_inj.1 hexp
    exact hg

/-- A normal product is known by the powers that it gives the units: its factors are, and so is
their order. -/
theorem IsNormal.ext {fs gs : UnitProduct} (hf : fs.IsNormal) (hg : gs.IsNormal)
    (h : ∀ u, u ≠ .dimensionless → exponentOf fs u = exponentOf gs u) : fs = gs := by
  have hperm : fs.Perm gs := by
    rw [List.perm_ext_iff_of_nodup (nodup_of_ordered hf.ordered) (nodup_of_ordered hg.ordered)]
    intro f
    rw [hf.mem_iff, hg.mem_iff]
    refine and_congr_right fun hu => ?_
    rw [h f.unit hu]
  refine hperm.eq_of_pairwise ?_ hf.ordered hg.ordered
  intro f g _ _ hfg hgf
  exact absurd hgf hfg.asymm

/-- The normal form gives each unit what is left of the sum of its exponents. -/
theorem exponentOf_normalize (fs : UnitProduct) {u : MeasureUnit} (hu : u ≠ .dimensionless) :
    exponentOf fs.normalize u = saturate (Int16.ofInt (exponentOf fs u)).toInt := by
  have hnormal := normal_normalize fs
  by_cases hzero : Int16.ofInt (exponentOf fs u) = 0
  · rw [hzero, exponentOf_of_not_mem]
    · rfl
    · intro hmem
      obtain ⟨f, hf, rfl⟩ := List.mem_map.1 hmem
      exact (mem_normalize_iff.1 hf).2.1 hzero
  · have hmem : ⟨u, Int8.ofIntClamp (Int16.ofInt (exponentOf fs u)).toInt⟩ ∈ fs.normalize :=
      mem_normalize_iff.2 ⟨hu, hzero, rfl⟩
    have hexp := exponentOf_of_mem hnormal.distinct hmem
    rwa [toInt_ofIntClamp] at hexp

/-- The exponents of a normal product have one byte. -/
theorem IsNormal.exponentOf_bounds {fs : UnitProduct} (h : fs.IsNormal) (u : MeasureUnit) :
    -128 ≤ exponentOf fs u ∧ exponentOf fs u ≤ 127 := by
  by_cases hmem : u ∈ fs.map (·.unit)
  · obtain ⟨f, hf, rfl⟩ := List.mem_map.1 hmem
    have hmin := f.exponent.le_toInt
    have hmax := f.exponent.toInt_lt
    rw [exponentOf_of_mem h.distinct hf]
    omega
  · rw [exponentOf_of_not_mem hmem]
    omega

/-! ## A normal product stays as it is -/

theorem IsNormal.normalize_eq_self {fs : UnitProduct} (h : fs.IsNormal) : fs.normalize = fs := by
  refine (normal_normalize fs).ext h fun u hu => ?_
  obtain ⟨hmin, hmax⟩ := h.exponentOf_bounds u
  rw [exponentOf_normalize fs hu, Int16.toInt_ofInt_of_le (by omega) (by omega)]
  exact saturate_eq_self_iff.2 ⟨hmin, hmax⟩

/-- There are fifteen units. -/
theorem IsNormal.length_le {fs : UnitProduct} (h : fs.IsNormal) : fs.length ≤ 15 := by
  have hsubset : fs.map (·.unit) ⊆ powered := by
    intro u hu
    obtain ⟨f, hf, rfl⟩ := List.mem_map.1 hu
    exact mem_powered_iff.2 (h.unit_ne f hf)
  have hle := (List.subperm_of_subset h.distinct hsubset).length_le
  rwa [List.length_map] at hle

end UnitProduct

end Dxb
