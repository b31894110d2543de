import Mathlib.Algebra.Group.Defs
import Dxb.Proofs.Quantity.Halved
import Dxb.Proofs.Quantity.RoundTrip
import Dxb.Proofs.Quantity.UnitText

/-!
# Quantities in base units

The text of a quantity in base units is a number and behind it a unit, which begins where the
characters of a number end.  The number is exactly the value: a decimal as short as it can be when
there is one, and the reduced fraction otherwise.  So the text tells quantities apart.  There is one
for every quantity, but for those whose decimal has more places than a text can have
(`Quantity.baseText_spec`).
-/

namespace Dxb.Quantity

open UnitProduct

/-- The beginning of a text in base units: its digits, minus sign, point and slash. -/
def numberPart (text : String) : List Char := text.toList.takeWhile Ratio.isMark

/-- What follows from the first other character on. -/
def unitPart (text : String) : List Char := text.toList.dropWhile Ratio.isMark

/-- What a quantity is written as when it has no finite expansion. -/
def fractionText (q : Quantity) : String :=
  (if q.isNegative then "-" else "") ++ Digits.decimal q.numerator ++ "/" ++
    Digits.decimal q.denominator

theorem baseText?_eq_some_iff {q : Quantity} {text : String} :
    q.baseText? = some text ↔
      Ratio.Writable q.value ∧ text = Ratio.written q.value ++ q.unitText :=
  map_text?_eq_some_iff

/-- A quantity has no text in base units if its value needs more places than a text can have. -/
theorem baseText?_eq_none_iff {q : Quantity} : q.baseText? = none ↔
    (∃ k, q.denominator ∣ 10 ^ k) ∧ ¬ q.denominator ∣ 10 ^ Ratio.maxPlaces :=
  map_text?_eq_none_iff

section

variable {q : Quantity} {text : String}

theorem numberPart_eq (h : q.baseText? = some text) :
    numberPart text = (Ratio.written q.value).toList := by
  obtain ⟨-, rfl⟩ := baseText?_eq_some_iff.1 h
  rw [numberPart, String.toList_append]
  exact takeWhile_number_append _ (startsUnit_spelled q.unit)

theorem unitPart_eq (h : q.baseText? = some text) : unitPart text = q.unitText.toList := by
  obtain ⟨-, rfl⟩ := baseText?_eq_some_iff.1 h
  rw [unitPart, String.toList_append]
  exact dropWhile_number_append _ (startsUnit_spelled q.unit)

theorem baseText?_inj {q' : Quantity} (h : q.unit.IsNormal) (h' : q'.unit.IsNormal)
    (htext : q.baseText? = some text) (htext' : q'.baseText? = some text) : q = q' := by
  obtain ⟨-, hwritten⟩ := baseText?_eq_some_iff.1 htext
  obtain ⟨-, hwritten'⟩ := baseText?_eq_some_iff.1 htext'
  have hlist := congrArg String.toList (hwritten.symm.trans hwritten')
  rw [String.toList_append, String.toList_append] at hlist
  obtain ⟨hvalue, hunit⟩ := number_append_inj (startsUnit_spelled _) (startsUnit_spelled _) hlist
  exact Quantity.ext hvalue (spelled_inj h.unit_ne h'.unit_ne (String.toList_inj.1 hunit))

end

/-- Every quantity has a text in base units, but for those whose value has a finite expansion of
more places than a text can have.  The text is a number that denotes the value and, behind it, the
unit.  The number is a finite decimal if and only if the reduced denominator divides a power of ten,
and the reduced fraction if it does not.  Quantities with the same text are equal. -/
theorem baseText_spec (q : Quantity) :
    (q.baseText? = none ↔
      (∃ k, q.denominator ∣ 10 ^ k) ∧ ¬ q.denominator ∣ 10 ^ Ratio.maxPlaces) ∧
    ∀ text, q.baseText? = some text →
      (text.toList = numberPart text ++ unitPart text ∧ StartsUnit (unitPart text) ∧
        unitPart text = q.unitText.toList) ∧
      Ratio.ofText? (numberPart text) = some q.value ∧
      (Ratio.IsDecimal (numberPart text) ↔ ∃ k, q.denominator ∣ 10 ^ k) ∧
      ((¬ ∃ k, q.denominator ∣ 10 ^ k) → numberPart text = q.fractionText.toList) ∧
      (q.IsCanonical → ∀ q' : Quantity, q'.IsCanonical → q'.baseText? = some text → q = q') := by
  refine ⟨baseText?_eq_none_iff, fun text htext => ⟨⟨?_, ?_, unitPart_eq htext⟩, ?_, ?_, ?_, ?_⟩⟩
  · exact (List.takeWhile_append_dropWhile).symm
  · rw [unitPart_eq htext]
    exact startsUnit_spelled q.unit
  · rw [numberPart_eq htext, Ratio.ofText?_written]
  · rw [numberPart_eq htext]
    exact Ratio.isDecimal_written_iff q.value
  · intro h
    have hsign : (q.isNegative = true) = (q.value.num < 0) := decide_eq_true_eq
    rw [numberPart_eq htext, Ratio.written_of_not_dvd h, fractionText]
    simp only [hsign]
    rfl
  · intro h q' h' htext'
    exact baseText?_inj h.unit h'.unit htext htext'

/-- Two eightieths of a second squared for each second, and ten thirds of a second. -/
theorem baseText_spec_of_seconds :
    ∃ q q' third, ofFraction? false 1 80 [⟨.second, 1⟩] = .ok q ∧
      ofFraction? false 2 160 [⟨.second, 2⟩, ⟨.second, -1⟩] = .ok q' ∧
      q.baseText? = some "0.0125s" ∧ q'.baseText? = some "0.0125s" ∧ q = q' ∧
      ofFraction? false 10 3 [⟨.second, 1⟩] = .ok third ∧ third.baseText? = some "10/3s" ∧
      (¬ ∃ k, third.denominator ∣ 10 ^ k) ∧ numberPart "10/3s" = third.fractionText.toList := by
  let q : Quantity := ⟨mkRat 1 80, [⟨.second, 1⟩]⟩
  let third : Quantity := ⟨mkRat 10 3, [⟨.second, 1⟩]⟩
  have hq : ofFraction? false 1 80 [⟨.second, 1⟩] = .ok q := by decide +kernel
  have hq' : ofFraction? false 2 160 [⟨.second, 2⟩, ⟨.second, -1⟩] = .ok q := by decide +kernel
  have htext : q.baseText? = some "0.0125s" := by decide +kernel
  have hthird : third.baseText? = some "10/3s" := by decide +kernel
  have heq := ((baseText_spec q).2 _ htext).2.2.2.2 (isCanonical_of_ofFraction? hq) q
    (isCanonical_of_ofFraction? hq') htext
  obtain ⟨-, -, hdecimal, hfraction, -⟩ := (baseText_spec third).2 _ hthird
  have hslash : '/' ∈ numberPart "10/3s" := by decide +kernel
  have hnone : ¬ ∃ k, third.denominator ∣ 10 ^ k := fun h =>
    (hdecimal.2 h).slash_not_mem hslash
  exact ⟨q, q, third, hq, hq', htext, htext, heq, by decide +kernel, hthird, hnone, hfraction hnone⟩

/-- One over `2 ^ 65535` divides a power of ten, and is a quantity that a record of few bytes
describes; but it has no text. -/
theorem baseText_of_many_halves :
    ∃ q, (QuantityRecord.halved 8191).Fits ∧ (QuantityRecord.halved 8191).quantity? = .ok q ∧
      (∃ k, q.denominator ∣ 10 ^ k) ∧ q.baseText? = none :=
  ⟨halved (8 * 8191 + 7), QuantityRecord.fits_halved (by decide),
    QuantityRecord.quantity?_halved (by decide), exists_dvd_halved _, baseText?_halved (by decide)⟩

end Dxb.Quantity
