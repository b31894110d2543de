import Dxb.Proofs.Bytes.BigEndian
import Dxb.Proofs.Bytes.Records
import Dxb.Proofs.Quantity.Units

/-!
# Quantities on the wire

Whatever way a quantity is obtained, it is canonical (`Obtained.isCanonical`): its fraction is
reduced and narrow enough for the wire, and its unit is in normal form.  A canonical quantity is
decoded from exactly the bytes that it is encoded as (`IsCanonical.takes`), so no length was cut off
and the bytes tell quantities apart.
-/

namespace Dxb.Quantity

theorem ext {q q' : Quantity} (hvalue : q.value = q'.value) (hunit : q.unit = q'.unit) :
    q = q' := by
  obtain ⟨value, unit⟩ := q
  obtain ⟨value', unit'⟩ := q'
  exact congrArg₂ Quantity.mk hvalue hunit

/-! ## Reduced fractions -/

section

variable {negative : Bool} {numerator denominator : Nat}

theorem num_mkRat (h : denominator ≠ 0) :
    (mkRat (if negative then -numerator else numerator) denominator).num =
      if negative then -((numerator / Nat.gcd numerator denominator : Nat) : Int)
      else (numerator / Nat.gcd numerator denominator : Nat) := by
  have hdvd : ((Nat.gcd numerator denominator : Nat) : Int) ∣ numerator :=
    Int.natCast_dvd_natCast.2 (Nat.gcd_dvd_left _ _)
  cases negative with
  | true =>
    simp only [if_true]
    rw [Rat.num_mkRat, if_neg h, Int.natAbs_neg, Int.natAbs_natCast, Nat.gcd_comm,
      Int.neg_ediv_of_dvd hdvd, Int.natCast_ediv]
  | false =>
    simp only [Bool.false_eq_true, if_false]
    rw [Rat.num_mkRat, if_neg h, Int.natAbs_natCast, Nat.gcd_comm, Int.natCast_ediv]

theorem natAbs_num_mkRat (h : denominator ≠ 0) :
    (mkRat (if negative then -numerator else numerator) denominator).num.natAbs =
      numerator / Nat.gcd numerator denominator := by
  rw [num_mkRat h]
  cases negative with
  | true => rw [if_pos rfl, Int.natAbs_neg, Int.natAbs_natCast]
  | false => rw [if_neg nofun, Int.natAbs_natCast]

theorem den_mkRat (h : denominator ≠ 0) :
    (mkRat (if negative then -numerator else numerator) denominator).den =
      denominator / Nat.gcd numerator denominator := by
  have habs : (if negative then -(numerator : Int) else numerator).natAbs = numerator := by
    cases negative <;> simp
  rw [Rat.den_mkRat, if_neg h, habs, Nat.gcd_comm]

end

/-- Either the reduced fraction is too wide, or it is the value of the quantity. -/
theorem ofFraction?_eq (negative : Bool) (numerator denominator : Nat) (unit : UnitProduct) :
    ofFraction? negative numerator denominator unit =
      if denominator = 0 then .error .zeroDenominator
      else if maxMagnitudeBytes < byteLength (numerator / Nat.gcd numerator denominator) then
        .error (.tooLarge (byteLength (numerator / Nat.gcd numerator denominator))
          maxMagnitudeBytes)
      else if maxMagnitudeBytes < byteLength (denominator / Nat.gcd numerator denominator) then
        .error (.tooLarge (byteLength (denominator / Nat.gcd numerator denominator))
          maxMagnitudeBytes)
      else .ok ⟨mkRat (if negative then -numerator else numerator) denominator,
        unit.normalize⟩ := by
  unfold ofFraction?
  split
  · rfl
  · rename_i hne
    dsimp only
    rw [natAbs_num_mkRat hne, den_mkRat hne, List.find?_cons, List.find?_cons, List.find?_nil]
    by_cases hn : maxMagnitudeBytes < byteLength (numerator / Nat.gcd numerator denominator)
    · rw [decide_eq_true hn, if_pos hn]
    · rw [decide_eq_false hn, if_neg hn]
      by_cases hd : maxMagnitudeBytes < byteLength (denominator / Nat.gcd numerator denominator)
      · rw [decide_eq_true hd, if_pos hd]
      · rw [decide_eq_false hd, if_neg hd]

/-! ## Canonical quantities -/

/-- What every quantity is that can be obtained. -/
structure IsCanonical (q : Quantity) : Prop where
  denominator_pos : 0 < q.denominator
  coprime : Nat.Coprime q.numerator q.denominator
  /-- Zero is not negative. -/
  nonneg_of_zero : q.numerator = 0 → q.isNegative = false
  numerator_bytes : byteLength q.numerator ≤ maxMagnitudeBytes
  denominator_bytes : byteLength q.denominator ≤ maxMagnitudeBytes
  unit : q.unit.IsNormal

theorem isCanonical_of_narrow {q : Quantity} (hn : byteLength q.numerator ≤ maxMagnitudeBytes)
    (hd : byteLength q.denominator ≤ maxMagnitudeBytes) (hu : q.unit.IsNormal) :
    q.IsCanonical where
  denominator_pos := q.value.den_pos
  coprime := q.value.reduced
  nonneg_of_zero h := by
    have hzero : q.value.num = 0 := Int.natAbs_eq_zero.1 h
    simp [isNegative, hzero]
  numerator_bytes := hn
  denominator_bytes := hd
  unit := hu

theorem isCanonical_of_ofFraction? {negative : Bool} {numerator denominator : Nat}
    {unit : UnitProduct} {q : Quantity}
    (h : ofFraction? negative numerator denominator unit = .ok q) : q.IsCanonical := by
  rw [ofFraction?_eq] at h
  split at h
  · cases h
  · rename_i hne
    split at h
    · cases h
    · rename_i hn
      split at h
      · cases h
      · rename_i hd
        cases h
        refine isCanonical_of_narrow ?_ ?_ (UnitProduct.normal_normalize unit)
        · rw [Quantity.numerator, natAbs_num_mkRat hne]
          exact Nat.le_of_not_lt hn
        · rw [Quantity.denominator, den_mkRat hne]
          exact Nat.le_of_not_lt hd

theorem isCanonical_ofInt (n : Int64) (unit : UnitProduct) :
    (ofInt n.toInt unit).IsCanonical := by
  refine isCanonical_of_narrow ?_ ?_ (UnitProduct.normal_normalize unit)
  · have hlt : n.toInt.natAbs < 256 ^ maxMagnitudeBytes := by
      have hmin := n.le_toInt
      have hmax := n.toInt_lt
      refine Nat.lt_of_lt_of_le (m := 256 ^ 8) (by omega) (Nat.pow_le_pow_right (by decide) ?_)
      decide
    exact byteLength_le_iff.2 hlt
  · show byteLength 1 ≤ maxMagnitudeBytes
    decide

/-! ## Encoding and decoding -/

/-- Factors whose units are known make a product; a code that is not known is named. -/
theorem unit?_cons (r : QuantityRecord) (code : UInt8) (exponent : Int8)
    (fs : List (UInt8 × Int8)) :
    { r with factors := (code, exponent) :: fs }.unit? = match MeasureUnit.ofCode? code with
      | none => .error (.unknownUnit code)
      | some u => (fun product => ⟨u, exponent⟩ :: product) <$> { r with factors := fs }.unit? := by
  unfold QuantityRecord.unit?
  rw [List.mapM_cons]
  dsimp only
  cases MeasureUnit.ofCode? code <;> rfl

theorem unit?_record (q : Quantity) : q.record.unit? = .ok q.unit := by
  obtain ⟨value, unit⟩ := q
  have hfactors : ∀ (r : QuantityRecord) (fs : UnitProduct),
      { r with factors := fs.map fun f : UnitFactor => (f.unit.code, f.exponent) }.unit? =
        .ok fs := by
    intro r fs
    induction fs with
    | nil => rfl
    | cons f fs ih =>
      rw [List.map_cons, unit?_cons, MeasureUnit.ofCode?_code, ih]
      rfl
  exact hfactors (record ⟨value, unit⟩) unit

theorem unknownUnit_of_unit? {r : QuantityRecord} {e : QuantityError} (h : r.unit? = .error e) :
    ∃ code, e = .unknownUnit code := by
  obtain ⟨sign, numerator, denominator, factors⟩ := r
  induction factors with
  | nil => cases h
  | cons f fs ih =>
    rw [unit?_cons ⟨sign, numerator, denominator, []⟩ f.1 f.2 fs] at h
    cases hu : MeasureUnit.ofCode? f.1 with
    | none =>
      rw [hu] at h
      cases h
      exact ⟨f.1, rfl⟩
    | some u =>
      rw [hu] at h
      cases hrest : QuantityRecord.unit? ⟨sign, numerator, denominator, fs⟩ with
      | ok product =>
        dsimp only at h
        rw [hrest] at h
        cases h
      | error e' =>
        dsimp only at h
        rw [hrest] at h
        cases h
        exact ih hrest

/-- The record of a canonical quantity describes it. -/
theorem IsCanonical.quantity?_record {q : Quantity} (h : q.IsCanonical) :
    q.record.quantity? = .ok q := by
  have hsign : (q.record.sign == 0) = q.isNegative := by
    unfold record
    cases q.isNegative <;> rfl
  have hvalue : mkRat (if q.isNegative then -q.numerator else q.numerator) q.denominator =
      q.value := by
    have hnum : (if q.isNegative then -(q.numerator : Int) else q.numerator) = q.value.num := by
      by_cases hneg : q.value.num < 0
      · have hneg' : q.isNegative = true := decide_eq_true hneg
        rw [if_pos hneg', Quantity.numerator]
        omega
      · have hpos : ¬ q.isNegative = true := fun h => hneg (of_decide_eq_true h)
        rw [if_neg hpos, Quantity.numerator]
        omega
    rw [hnum]
    exact Rat.mkRat_self q.value
  unfold QuantityRecord.quantity?
  rw [unit?_record, hsign]
  show ofFraction? q.isNegative (ofBigEndian (bigEndian q.numerator))
    (ofBigEndian (bigEndian q.denominator)) q.unit = .ok q
  rw [ofBigEndian_bigEndian, ofBigEndian_bigEndian, ofFraction?_eq,
    if_neg (Nat.ne_of_gt h.denominator_pos), h.coprime, Nat.div_one, Nat.div_one,
    if_neg (Nat.not_lt_of_le h.numerator_bytes), if_neg (Nat.not_lt_of_le h.denominator_bytes),
    hvalue, h.unit.normalize_eq_self]

/-- All lengths of the record can be written down. -/
theorem IsCanonical.fits {q : Quantity} (h : q.IsCanonical) : q.record.Fits where
  numerator := Nat.lt_succ_of_le
    (length_bigEndian_le (by decide) (byteLength_le_iff.1 h.numerator_bytes))
  denominator := Nat.lt_succ_of_le
    (length_bigEndian_le (by decide) (byteLength_le_iff.1 h.denominator_bytes))
  count := by
    have hle := h.unit.length_le
    show (q.unit.map _).length < 256
    rw [List.length_map]
    omega

theorem IsCanonical.takes {q : Quantity} (h : q.IsCanonical) : decode.Takes q.encode (.ok q) := by
  rw [← h.quantity?_record]
  exact (QuantityRecord.takes q.record h.fits).map QuantityRecord.quantity?

theorem IsCanonical.encode_inj {q q' : Quantity} (h : q.IsCanonical) (h' : q'.IsCanonical) :
    q.encode = q'.encode ↔ q = q' := by
  refine ⟨?_, congrArg encode⟩
  intro heq
  have hq := h.takes [] 0
  rw [heq, h'.takes [] 0] at hq
  cases hq
  rfl

/-! ## Decoding never finds a magnitude too large -/

theorem ofFraction?_ne_tooLarge {negative : Bool} {numerator denominator : Nat}
    (hn : numerator < 256 ^ maxMagnitudeBytes) (hd : denominator < 256 ^ maxMagnitudeBytes)
    (unit : UnitProduct) (bytes limit : Nat) :
    ofFraction? negative numerator denominator unit ≠ .error (.tooLarge bytes limit) := by
  have hnarrow : ∀ {n : Nat}, n < 256 ^ maxMagnitudeBytes →
      ¬ maxMagnitudeBytes < byteLength (n / Nat.gcd numerator denominator) := by
    intro n hlt
    exact Nat.not_lt_of_le (byteLength_le_iff.2 (Nat.lt_of_le_of_lt (Nat.div_le_self _ _) hlt))
  rw [ofFraction?_eq, if_neg (hnarrow hn), if_neg (hnarrow hd)]
  split <;> nofun

/-- A record that was read has lengths that can be written down. -/
theorem ensures_fits : QuantityRecord.read.Ensures QuantityRecord.Fits := by
  refine Reader.ensures_of_rest _ fun sign => ?_
  refine (Reader.ensures_number 2).bind fun numeratorLength hnumerator => ?_
  refine (Reader.ensures_number 2).bind fun denominatorLength hdenominator => ?_
  refine (Reader.ensures_bytes numeratorLength).bind fun numerator hn => ?_
  refine (Reader.ensures_bytes denominatorLength).bind fun denominator hd => ?_
  refine (Reader.ensures_number 1).bind fun count hcount => ?_
  refine (Reader.ensures_repeated _ count).bind fun factors hfactors => ?_
  refine Reader.ensures_pure ⟨?_, ?_, ?_⟩
  · rwa [hn]
  · rwa [hd]
  · rwa [hfactors]

theorem ensures_ne_tooLarge (bytes limit : Nat) :
    decode.Ensures fun result => result ≠ .error (.tooLarge bytes limit) := by
  refine ensures_fits.bind fun r hr => Reader.ensures_pure ?_
  have hlt : ∀ {magnitude : List UInt8}, magnitude.length < 2 ^ 16 →
      ofBigEndian magnitude < 256 ^ maxMagnitudeBytes := by
    intro magnitude hlt
    exact Nat.lt_of_lt_of_le (ofBigEndian_lt magnitude)
      (Nat.pow_le_pow_right (by decide) (Nat.le_of_lt_succ hlt))
  unfold QuantityRecord.quantity?
  cases hunit : r.unit? with
  | error e =>
    obtain ⟨code, rfl⟩ := unknownUnit_of_unit? hunit
    nofun
  | ok unit =>
    exact ofFraction?_ne_tooLarge (hlt hr.numerator) (hlt hr.denominator) unit bytes limit

/-! ## However a quantity is obtained -/

/-- The ways to come by a quantity: made of a fraction, made of an integer, or decoded.  Lists of
factors have their length in one byte. -/
inductive Obtained : Quantity → Prop
  | fraction {negative : Bool} {numerator denominator : Nat} {unit : UnitProduct} {q : Quantity}
      (hcount : unit.length ≤ 255)
      (h : ofFraction? negative numerator denominator unit = .ok q) : Obtained q
  | integer (n : Int64) {unit : UnitProduct} (hcount : unit.length ≤ 255) :
      Obtained (ofInt n.toInt unit)
  | decoded {c d : Cursor} {q : Quantity} (h : decode.run c = (.ok (.ok q), d)) : Obtained q

theorem ensures_isCanonical :
    decode.Ensures fun result => ∀ q, result = .ok q → q.IsCanonical := by
  refine Reader.ensures_of_rest _ fun r => Reader.ensures_pure ?_
  intro q hq
  unfold QuantityRecord.quantity? at hq
  cases hunit : r.unit? with
  | error e =>
    rw [hunit] at hq
    cases hq
  | ok unit =>
    rw [hunit] at hq
    exact isCanonical_of_ofFraction? hq

theorem Obtained.isCanonical {q : Quantity} (h : q.Obtained) : q.IsCanonical := by
  cases h with
  | fraction _ h => exact isCanonical_of_ofFraction? h
  | integer n _ => exact isCanonical_ofInt n _
  | decoded h => exact ensures_isCanonical _ _ _ h q rfl

/-- Every quantity that can be obtained is canonical and is decoded from exactly the bytes that it
is encoded as, whatever follows; its bytes are those of no other quantity; and no bytes are decoded
to the error that a magnitude is too large. -/
theorem obtained_round_trip :
    (∀ q, Obtained q → q.IsCanonical ∧
      (∀ rest o, decode.run ⟨q.encode ++ rest, o⟩ =
        (.ok (.ok q), ⟨rest, o + q.encode.length⟩)) ∧
      ∀ q', Obtained q' → (q.encode = q'.encode ↔ q = q')) ∧
    ∀ c d bytes limit, decode.run c ≠ (.ok (.error (.tooLarge bytes limit)), d) := by
  refine ⟨?_, ?_⟩
  · intro q hq
    exact ⟨hq.isCanonical, hq.isCanonical.takes, fun q' hq' =>
      hq.isCanonical.encode_inj hq'.isCanonical⟩
  · intro c d bytes limit h
    exact ensures_ne_tooLarge bytes limit c _ d h rfl

/-- Six metres over minus eight, given with repeated and vanishing units. -/
theorem obtained_round_trip_of_fraction :
    ∃ q, ofFraction? true 6 8 [⟨.second, 1⟩, ⟨.metre, 1⟩, ⟨.second, -1⟩, ⟨.dimensionless, 2⟩] =
        .ok q ∧ q.unit = [⟨.metre, 1⟩] ∧
      decode.run ⟨q.encode ++ [7], 0⟩ = (.ok (.ok q), ⟨[7], q.encode.length⟩) := by
  let q : Quantity := ⟨mkRat (-6) 8, [⟨.metre, 1⟩]⟩
  have hq : ofFraction? true 6 8
      [⟨.second, 1⟩, ⟨.metre, 1⟩, ⟨.second, -1⟩, ⟨.dimensionless, 2⟩] = .ok q := by
    decide +kernel
  have hround := (obtained_round_trip.1 q (.fraction (by decide) hq)).2.1 [7] 0
  rw [Nat.zero_add] at hround
  exact ⟨q, hq, rfl, hround⟩

end Dxb.Quantity
