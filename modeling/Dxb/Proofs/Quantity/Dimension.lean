import Dxb.Proofs.Quantity.Equality

/-!
# The dimension that a record gives

A record may give a unit several exponents.  The quantity that it is decoded to keeps their sum as
far as one byte goes: the sum itself when it is within -128 and 127, and the nearer end of that
range when it is not (`Quantity.kept_iff`).  So records whose sums are within the range are told
apart by their dimension, and a record beyond it is decoded to the same quantity as one that is not.
-/

namespace Dxb

namespace QuantityRecord

/-- The sum of the exponents that a record gives a unit. -/
def exponentOf (r : QuantityRecord) (u : MeasureUnit) : Int :=
  ((r.factors.filter (·.1 = u.code)).map (·.2.toInt)).sum

/-- Every sum of exponents has one byte. -/
def InOneByte (r : QuantityRecord) : Prop :=
  ∀ u, u ≠ .dimensionless → -128 ≤ r.exponentOf u ∧ r.exponentOf u ≤ 127

/-- The units of a record are known if and only if its codes are those of units. -/
theorem unit?_eq_ok_iff {r : QuantityRecord} {fs : UnitProduct} :
    r.unit? = .ok fs ↔ r.factors = fs.map fun f => (f.unit.code, f.exponent) := by
  obtain ⟨sign, numerator, denominator, factors⟩ := r
  induction factors generalizing fs with
  | nil => cases fs <;> simp [unit?, pure, Except.pure]
  | cons f factors ih =>
    obtain ⟨code, exponent⟩ := f
    rw [Quantity.unit?_cons ⟨sign, numerator, denominator, []⟩ code exponent factors]
    constructor
    · intro h
      cases hcode : MeasureUnit.ofCode? code with
      | none =>
        rw [hcode] at h
        cases h
      | some u =>
        rw [hcode] at h
        cases hgs : unit? ⟨sign, numerator, denominator, factors⟩ with
        | error e =>
          dsimp only at h
          rw [hgs] at h
          cases h
        | ok gs =>
          dsimp only at h
          rw [hgs] at h
          cases h
          have hfactors : factors = _ := ih.1 hgs
          rw [List.map_cons, ← hfactors, MeasureUnit.code_of_ofCode? hcode]
    · intro h
      cases fs with
      | nil => cases h
      | cons g gs =>
        obtain ⟨hg, hgs⟩ := List.cons.inj h
        cases hg
        rw [MeasureUnit.ofCode?_code]
        dsimp only
        rw [ih.2 hgs]
        rfl

/-- A product gives the units what the record does that it was read from. -/
theorem exponentOf_of_unit? {r : QuantityRecord} {fs : UnitProduct} (h : r.unit? = .ok fs)
    (u : MeasureUnit) : fs.exponentOf u = r.exponentOf u := by
  rw [exponentOf, unit?_eq_ok_iff.1 h]
  clear h
  induction fs with
  | nil => rfl
  | cons f fs ih =>
    rw [UnitProduct.exponentOf_cons, ih, List.map_cons]
    by_cases hf : f.unit = u
    · rw [if_pos hf, List.filter_cons_of_pos (by simp [hf]), List.map_cons, List.sum_cons]
    · have hcode : ¬ f.unit.code = u.code := fun h => hf (MeasureUnit.code_inj h)
      rw [if_neg hf, List.filter_cons_of_neg (by simpa using hcode), Int.zero_add]

end QuantityRecord

namespace Quantity

open UnitProduct

/-- The exponent that a quantity has stored for a unit; none stands for zero. -/
def exponentOf (q : Quantity) (u : MeasureUnit) : Int :=
  ((q.unit.find? (·.unit = u)).map (·.exponent.toInt)).getD 0

theorem exponentOf_eq {q : Quantity} (h : (q.unit.map (·.unit)).Nodup) (u : MeasureUnit) :
    q.exponentOf u = UnitProduct.exponentOf q.unit u := by
  unfold exponentOf
  cases hfind : q.unit.find? (·.unit = u) with
  | none =>
    rw [exponentOf_of_not_mem]
    · rfl
    · intro hmem
      obtain ⟨f, hf, hu⟩ := List.mem_map.1 hmem
      exact List.find?_eq_none.1 hfind f hf (decide_eq_true hu)
  | some f =>
    have hu : f.unit = u := by simpa using List.find?_some hfind
    subst hu
    exact (exponentOf_of_mem h (List.mem_of_find?_eq_some hfind)).symm

/-- What is accepted is a record, and the unit of the quantity is the normal form of its product. -/
theorem exists_record {c : Cursor} {q : Quantity} (h : (decode.run c).1 = .ok (.ok q)) :
    ∃ r fs, (QuantityRecord.read.run c).1 = .ok r ∧ r.unit? = .ok fs ∧ fs.length ≤ 255 ∧
      q.unit = fs.normalize := by
  have hdecode : decode.run c = (QuantityRecord.read >>= fun r => pure r.quantity?).run c := rfl
  rw [hdecode, Reader.run_bind] at h
  cases hread : QuantityRecord.read.run c with
  | mk result d =>
    rw [hread] at h
    cases result with
    | error e => cases h
    | ok r =>
      have hq : r.quantity? = .ok q := Except.ok.inj h
      unfold QuantityRecord.quantity? at hq
      cases hunit : r.unit? with
      | error e =>
        rw [hunit] at hq
        cases hq
      | ok fs =>
        rw [hunit] at hq
        refine ⟨r, fs, rfl, hunit, ?_, ?_⟩
        · have hcount := (ensures_fits c r d hread).count
          rw [QuantityRecord.unit?_eq_ok_iff.1 hunit, List.length_map] at hcount
          omega
        · rw [(eq_of_ofFraction? hq).2]

/-- What is stored for a unit is what is left of the sum that the record gives it. -/
theorem exponentOf_of_unit? {r : QuantityRecord} {fs : UnitProduct} {q : Quantity}
    (hunit : r.unit? = .ok fs) (hcount : fs.length ≤ 255) (hq : q.unit = fs.normalize)
    {u : MeasureUnit} (hu : u ≠ .dimensionless) : q.exponentOf u = saturate (r.exponentOf u) := by
  have hdistinct : (q.unit.map (·.unit)).Nodup := by
    rw [hq]
    exact (normal_normalize fs).distinct
  rw [exponentOf_eq hdistinct, hq, exponentOf_normalize_of_length hcount hu,
    QuantityRecord.exponentOf_of_unit? hunit]

/-- Of every record that is accepted, each unit keeps the sum of its exponents if and only if that
is within one byte.  Two records are decoded to the same quantity if and only if their values are
equal and so are their sums as far as these are kept; when all sums are within one byte, they are of
the same dimension then. -/
theorem kept_iff {c c' : Cursor} {q q' : Quantity} (h : (decode.run c).1 = .ok (.ok q))
    (h' : (decode.run c').1 = .ok (.ok q')) :
    ∃ r r', (QuantityRecord.read.run c).1 = .ok r ∧ (QuantityRecord.read.run c').1 = .ok r' ∧
      (∀ u, u ≠ .dimensionless → q.exponentOf u = saturate (r.exponentOf u) ∧
        (q.exponentOf u = r.exponentOf u ↔ -128 ≤ r.exponentOf u ∧ r.exponentOf u ≤ 127)) ∧
      (q = q' ↔ q.value = q'.value ∧ ∀ u, u ≠ .dimensionless →
        saturate (r.exponentOf u) = saturate (r'.exponentOf u)) ∧
      (r.InOneByte → r'.InOneByte → q = q' →
        ∀ u, u ≠ .dimensionless → r.exponentOf u = r'.exponentOf u) := by
  obtain ⟨r, fs, hr, hunit, hcount, hq⟩ := exists_record h
  obtain ⟨r', fs', hr', hunit', hcount', hq'⟩ := exists_record h'
  have hkept : ∀ u, u ≠ .dimensionless → q.exponentOf u = saturate (r.exponentOf u) :=
    fun u hu => exponentOf_of_unit? hunit hcount hq hu
  have hkept' : ∀ u, u ≠ .dimensionless → q'.exponentOf u = saturate (r'.exponentOf u) :=
    fun u hu => exponentOf_of_unit? hunit' hcount' hq' hu
  refine ⟨r, r', hr, hr', fun u hu => ⟨hkept u hu, ?_⟩, ⟨?_, ?_⟩, ?_⟩
  · rw [hkept u hu]
    exact saturate_eq_self_iff
  · rintro rfl
    exact ⟨rfl, fun u hu => by rw [← hkept u hu, ← hkept' u hu]⟩
  · rintro ⟨hvalue, hsums⟩
    have hunits : q.unit = q'.unit := by
      rw [hq, hq', normalize_eq_iff hcount hcount']
      intro u hu
      rw [QuantityRecord.exponentOf_of_unit? hunit, QuantityRecord.exponentOf_of_unit? hunit']
      exact hsums u hu
    exact Quantity.ext hvalue hunits
  · intro hin hin' heq u hu
    rw [← saturate_eq_self_iff.2 (hin u hu), ← saturate_eq_self_iff.2 (hin' u hu), ← hkept u hu,
      ← hkept' u hu, heq]

/-- A unit that is given 127 and -7 keeps 120. -/
theorem kept_iff_within_byte :
    ∃ q, (decode.run (.ofBytes [1, 1, 0, 1, 0, 3, 2, 2, 1, 127, 1, 0xf9])).1 = .ok (.ok q) ∧
      q.exponentOf .metre = 120 := by
  let c : Cursor := .ofBytes [1, 1, 0, 1, 0, 3, 2, 2, 1, 127, 1, 0xf9]
  let r : QuantityRecord := ⟨1, [3], [2], [(1, 127), (1, -7)]⟩
  let q : Quantity := ⟨mkRat 3 2, [⟨.metre, 120⟩]⟩
  have hq : (decode.run c).1 = .ok (.ok q) := by decide +kernel
  have hread : (QuantityRecord.read.run c).1 = .ok r := by decide +kernel
  obtain ⟨r', -, hr', -, hkept, -⟩ := kept_iff hq hq
  obtain rfl : r = r' := Except.ok.inj (hread.symm.trans hr')
  have hsum : r.exponentOf .metre = 120 := by decide +kernel
  refine ⟨q, hq, ?_⟩
  rw [((hkept .metre (by decide)).2.2 (by rw [hsum]; decide)), hsum]

/-- A record that gives metres 127 and 1 is decoded to the same quantity as one that gives them
127. -/
theorem dimension_not_kept :
    ∃ r r' q,
      (QuantityRecord.read.run (.ofBytes [1, 1, 0, 1, 0, 1, 1, 2, 1, 127, 1, 1])).1 = .ok r ∧
      (QuantityRecord.read.run (.ofBytes [1, 1, 0, 1, 0, 1, 1, 1, 1, 127])).1 = .ok r' ∧
      (decode.run (.ofBytes [1, 1, 0, 1, 0, 1, 1, 2, 1, 127, 1, 1])).1 = .ok (.ok q) ∧
      (decode.run (.ofBytes [1, 1, 0, 1, 0, 1, 1, 1, 1, 127])).1 = .ok (.ok q) ∧
      r.exponentOf .metre = 128 ∧ r'.exponentOf .metre = 127 ∧ q.exponentOf .metre = 127 := by
  refine ⟨⟨1, [1], [1], [(1, 127), (1, 1)]⟩, ⟨1, [1], [1], [(1, 127)]⟩, ⟨1, [⟨.metre, 127⟩]⟩, ?_⟩
  decide +kernel

end Quantity

end Dxb
