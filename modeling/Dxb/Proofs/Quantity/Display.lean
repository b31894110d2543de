import Mathlib.Tactic.Linarith
import Dxb.Proofs.Quantity.Aliases
import Dxb.Proofs.Quantity.Amount

/-!
# What the text of a quantity says

At the start of a unit, the expression of a derived unit is replaced by its name, and the value is
divided for it.  The name denotes a multiple of the expression (`UnitAlias.ofUnit?_name`): as many
as the value is divided by, but for the farad, of which one is a thousandth of what it replaces.  So
the text of a quantity, if it has one, denotes the quantity, but a millionth of it where its unit
begins with that of a farad (`Quantity.ofText?_of_text?`).
-/

namespace Dxb

open Amount

namespace UnitAlias

/-- How many of the expression that it replaces a derived unit is. -/
def scale (a : UnitAlias) : Rat := if a.name = "F" then 1 / 1000 else a.divisor

theorem ofUnit?_name : ∀ a ∈ all, ∃ b : Amount, ofUnit? a.expression.toList = some b ∧
    ofUnit? a.name.toList = some (a.scale • b) := by
  intro a ha
  simp only [all, List.mem_cons, List.not_mem_nil, or_false] at ha
  rcases ha with rfl | rfl | rfl | rfl | rfl | rfl | rfl | rfl | rfl
  all_goals
    refine ⟨_, rfl, congrArg some (Amount.ext ?_ (funext fun u => ?_))⟩
    · decide +kernel
    · cases u <;> rfl

/-! ## The farad -/

def farad : UnitAlias := ⟨"A^2*s^4/g/m^2", "F", 1000⟩

theorem farad_mem_all : farad ∈ all := by simp [all, farad]

/-- One of any other derived unit is as many of what it replaces as the value is divided by; and
what begins with its expression does not begin with that of the farad. -/
theorem eq_farad_or : ∀ a ∈ all, a = farad ∨ a.scale = a.divisor ∧
    ∀ rest, farad.replaceIn? (a.expression.toList ++ rest) = none := by
  intro a ha
  simp only [all, List.mem_cons, List.not_mem_nil, or_false] at ha
  rcases ha with rfl | rfl | rfl | rfl | rfl | rfl | rfl | rfl | rfl
  all_goals first | exact .inl rfl | exact .inr ⟨rfl, fun _ => rfl⟩

/-- The part of an amount that its text denotes with derived units. -/
def kept (text : List Char) : Rat := if (farad.replaceIn? text).isSome then 1 / 1000000 else 1

/-- Shortening a text divides what it denotes by the divisor, and loses a part of it. -/
theorem ofUnit?_shorten {text : String} {b : Amount} (h : ofUnit? text.toList = some b) :
    ofUnit? (shorten text).1.toList =
      some ((((shorten text).2 : Rat) * kept text.toList) • b) := by
  rcases shorten_eq text with
    ⟨hsame, hone, hnone⟩ | ⟨a, ha, rest, hboundary, hexpression, hname, hdivisor⟩
  · rw [hsame, h, hone, kept, hnone farad farad_mem_all]
    refine congrArg some (Amount.ext ?_ rfl)
    show b.value = ((1 : Nat) : Rat) * 1 * b.value
    rw [Nat.cast_one, one_mul, one_mul]
  · obtain ⟨c, hc, hdenotes⟩ := ofUnit?_name a ha
    have hscale : a.scale = a.divisor * kept text.toList := by
      rcases eq_farad_or a ha with rfl | ⟨hscale, hother⟩
      · have hfarad := replaceIn?_eq_some_iff.2 ⟨rest, hboundary, hexpression, rfl⟩
        rw [kept, hfarad, if_pos Option.isSome_some]
        decide +kernel
      · rw [kept, hexpression, hother rest, hscale]
        exact (mul_one _).symm
    rw [hexpression, ofUnit?_append _ hboundary, hc, Option.bind_some] at h
    rw [hname, hdivisor, ofUnit?_append _ hboundary, hdenotes, Option.bind_some,
      foldlM_times?_smul, h, Option.map_some, hscale]

end UnitAlias

/-! ## Where the unit begins -/

namespace UnitProduct

theorem startsUnit_shorten {text : String} (h : StartsUnit text.toList) :
    StartsUnit (UnitAlias.shorten text).1.toList := by
  have hnames : ∀ a ∈ UnitAlias.all, StartsUnit a.name.toList := by
    unfold StartsUnit
    decide
  rcases UnitAlias.shorten_eq text with ⟨hsame, -⟩ | ⟨a, ha, rest, -, -, hname, -⟩
  · rwa [hsame]
  · rw [hname]
    exact StartsUnit.append (hnames a ha) rest

/-- What a farad is, in grams. -/
def faradFactors : UnitProduct := [⟨.ampere, 2⟩, ⟨.second, 4⟩, ⟨.gram, -1⟩, ⟨.metre, -2⟩]

theorem kept_text (fs : UnitProduct) :
    UnitAlias.kept fs.text.toList = if faradFactors <+: fs then 1 / 1000000 else 1 := by
  have hexpression : UnitAlias.farad.expression.toList = (text faradFactors).toList := by decide
  have hiff : (UnitAlias.farad.replaceIn? fs.text.toList).isSome = true ↔ faradFactors <+: fs := by
    rw [Option.isSome_iff_exists, faradFactors, ← text_prefix_iff (by decide) (by decide)]
    constructor
    · rintro ⟨text', h⟩
      obtain ⟨rest, hboundary, htext, -⟩ := UnitAlias.replaceIn?_eq_some_iff.1 h
      exact ⟨rest, hboundary, hexpression ▸ htext⟩
    · rintro ⟨rest, hboundary, htext⟩
      exact ⟨_, UnitAlias.replaceIn?_eq_some_iff.2 ⟨rest, hboundary, hexpression ▸ htext, rfl⟩⟩
  unfold UnitAlias.kept
  exact if_congr hiff rfl rfl

end UnitProduct

/-! ## Quantities -/

namespace Quantity

open UnitProduct

/-- The amount that a quantity is. -/
def amount (q : Quantity) : Amount := ⟨q.value, q.unit.powers⟩

/-- A unit as it stands in the text of a quantity. -/
def shownUnit (fs : UnitProduct) : String :=
  if (UnitAlias.shorten fs.text).1 = "" then MeasureUnit.dimensionless.symbol
  else (UnitAlias.shorten fs.text).1

theorem shownUnit_eq (fs : UnitProduct) :
    shownUnit fs = (UnitAlias.shorten (spelled fs)).1 := by
  cases fs with
  | nil => decide +kernel
  | cons f fs =>
    have hstart := startsUnit_shorten (startsUnit_text (List.cons_ne_nil f fs))
    rw [spelled_cons]
    refine if_neg fun hempty => ?_
    rw [hempty] at hstart
    cases hstart

theorem startsUnit_shownUnit (fs : UnitProduct) : StartsUnit (shownUnit fs).toList := by
  rw [shownUnit_eq]
  exact startsUnit_shorten (startsUnit_spelled fs)

theorem ofUnit?_shownUnit (fs : UnitProduct) : ofUnit? (shownUnit fs).toList = some
    ((((UnitAlias.shorten fs.text).2 : Rat) * UnitAlias.kept fs.text.toList) • ⟨1, fs.powers⟩) := by
  cases fs with
  | nil =>
    refine congrArg some (Amount.ext ?_ (funext fun u => ?_))
    · decide +kernel
    · cases u <;> rfl
  | cons f fs =>
    rw [shownUnit_eq, spelled_cons]
    exact UnitAlias.ofUnit?_shorten (ofUnit?_text (List.cons_ne_nil f fs))

/-- The number in the text of a quantity: its value, divided for the unit. -/
def shownValue (q : Quantity) : Rat := q.value / (UnitAlias.shorten q.unit.text).2

theorem text?_eq (q : Quantity) :
    q.text? = (Ratio.text? q.shownValue).map (· ++ shownUnit q.unit) := by
  have hvalue : mkRat q.value.num (q.value.den * (UnitAlias.shorten q.unit.text).2) =
      q.shownValue := by
    rw [shownValue, Rat.mkRat_eq_div, Nat.cast_mul, ← div_div, Rat.num_div_den]
  rw [← hvalue]
  rfl

theorem text?_eq_some_iff {q : Quantity} {text : String} :
    q.text? = some text ↔ Ratio.Writable q.shownValue ∧
      text = Ratio.written q.shownValue ++ shownUnit q.unit := by
  rw [text?_eq, map_text?_eq_some_iff]

theorem text?_eq_none_iff {q : Quantity} : q.text? = none ↔
    (∃ k, q.shownValue.den ∣ 10 ^ k) ∧ ¬ q.shownValue.den ∣ 10 ^ Ratio.maxPlaces := by
  rw [text?_eq, map_text?_eq_none_iff]

/-- The text of a quantity is read as the quantity, but for a millionth of it where its unit begins
with that of a farad. -/
theorem ofText?_of_text? {q : Quantity} {text : String} (h : q.text? = some text) :
    Amount.ofText? text =
      some ⟨if faradFactors <+: q.unit then q.value / 1000000 else q.value, q.unit.powers⟩ := by
  obtain ⟨-, rfl⟩ := text?_eq_some_iff.1 h
  have hdivisor : ((UnitAlias.shorten q.unit.text).2 : Rat) ≠ 0 :=
    Nat.cast_ne_zero.2 (UnitAlias.divisor_ne_zero _)
  have hstart := startsUnit_shownUnit q.unit
  unfold Amount.ofText?
  rw [String.toList_append, takeWhile_number_append _ hstart, dropWhile_number_append _ hstart,
    ofUnit?_shownUnit, Ratio.ofText?_written, shownValue]
  refine congrArg some (Amount.ext ?_ rfl)
  show q.value / _ * (_ * UnitAlias.kept q.unit.text.toList * 1) = _
  rw [kept_text]
  split
  · field_simp
  · field_simp

/-- A quantity has a text unless the number in it needs too many places.  The text is always read,
and with the powers of the unit.  It denotes the quantity if and only if that is zero or its unit
does not begin with that of a farad. -/
theorem text_denotes_iff (q : Quantity) :
    (q.text? = none ↔
      (∃ k, q.shownValue.den ∣ 10 ^ k) ∧ ¬ q.shownValue.den ∣ 10 ^ Ratio.maxPlaces) ∧
    ∀ text, q.text? = some text →
      (∃ a, Amount.ofText? text = some a ∧ a.powers = q.unit.powers) ∧
      (Amount.ofText? text = some q.amount ↔ q.value = 0 ∨ ¬ faradFactors <+: q.unit) := by
  refine ⟨text?_eq_none_iff, fun text h => ?_⟩
  rw [ofText?_of_text? h]
  refine ⟨⟨_, rfl, rfl⟩, ?_⟩
  rw [Option.some_inj, amount, Amount.mk.injEq, and_iff_left rfl]
  split
  · rename_i hfarad
    rw [or_iff_left (not_not_intro hfarad)]
    constructor
    · intro h
      linarith
    · intro h
      rw [h, zero_div]
  · rename_i hother
    exact iff_of_true rfl (.inr hother)

/-- Two and a half joules, in debt. -/
theorem text_denotes_of_joules :
    let q : Quantity := ⟨-2500, [⟨.gram, 1⟩, ⟨.metre, 2⟩, ⟨.second, -2⟩]⟩
    q.text? = some "-2.5J" ∧ Amount.ofText? "-2.5J" = some q.amount := by
  intro q
  have htext : q.text? = some "-2.5J" := by decide +kernel
  have hother : ¬ faradFactors <+: q.unit := by decide
  exact ⟨htext, ((text_denotes_iff q).2 _ htext).2.2 (.inr hother)⟩

/-- What is a thousand farads is written as a thousandth of one. -/
theorem text_of_farads :
    ∃ q : Quantity, ofFraction? false 1 1 faradFactors = .ok q ∧ q.text? = some "0.001F" ∧
      Amount.ofText? "1000F" = some q.amount ∧ Amount.ofText? "0.001F" ≠ some q.amount := by
  refine ⟨⟨1, faradFactors⟩, by decide +kernel, by decide +kernel, ?_, fun h => ?_⟩
  · refine congrArg some (Amount.ext ?_ (funext fun u => ?_))
    · decide +kernel
    · cases u <;> rfl
  · have hvalue := congrArg (Option.map Amount.value) h
    exact absurd hvalue (by decide +kernel)

end Quantity

end Dxb
