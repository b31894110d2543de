import Dxb.Proofs.Quantity.Sums
import Dxb.Proofs.Quantity.UnitText
import Dxb.Quantity

/-!
# Reading amounts

An amount is a rational number of a product of powers of base units.  A text is read as an amount
(`Amount.ofText?`): a number, and behind it words with signs between them, of which each is the
symbol of a base unit with an exponent.  The first word may also be the name of a derived unit,
which stands for its definition.  The text of a product of units is read as one of that product
(`Amount.ofUnit?_text`).
-/

namespace Dxb

/-- A number of a product of powers of base units. -/
@[ext]
structure Amount where
  value : Rat
  powers : MeasureUnit → Int

namespace Amount

open UnitProduct

instance : Mul Amount := ⟨fun a b => ⟨a.value * b.value, fun u => a.powers u + b.powers u⟩⟩

instance : Div Amount := ⟨fun a b => ⟨a.value / b.value, fun u => a.powers u - b.powers u⟩⟩

instance : Pow Amount Nat := ⟨fun a n => ⟨a.value ^ n, fun u => n * a.powers u⟩⟩

instance : SMul Rat Amount := ⟨fun r a => ⟨r * a.value, a.powers⟩⟩

/-! ## Units -/

/-- One of a base unit.  The dimensionless one has no power. -/
def one (u : MeasureUnit) : Amount := ⟨1, fun v => if v = u ∧ u ≠ .dimensionless then 1 else 0⟩

def kilogram : Amount := (1000 : Rat) • one .gram

/-- The derived units by their definitions in base units. -/
def derived : List (String × Amount) :=
  let (m, s, A) := (one .metre, one .second, one .ampere)
  [("kg", kilogram),
    ("N", kilogram * m / s ^ 2),
    ("J", kilogram * m ^ 2 / s ^ 2),
    ("W", kilogram * m ^ 2 / s ^ 3),
    ("V", kilogram * m ^ 2 / (A * s ^ 3)),
    ("Ω", kilogram * m ^ 2 / (A ^ 2 * s ^ 3)),
    ("F", A ^ 2 * s ^ 4 / (kilogram * m ^ 2)),
    ("C", A * s),
    ("Hz", one .dimensionless / s)]

/-- What the symbol of a base unit stands for. -/
def ofSymbol? (symbol : List Char) : Option Amount :=
  (MeasureUnit.all.find? fun u => u.shortSymbol.toList == symbol).map one

/-- What the first symbol of a text stands for, which may be that of a derived unit. -/
def ofFirst? (symbol : List Char) : Option Amount :=
  match derived.find? fun d => d.1.toList == symbol with
  | some d => some d.2
  | none => ofSymbol? symbol

/-! ## Texts -/

/-- Reads a symbol, and the exponent if there is one. -/
def ofWord? (lookup : List Char → Option Amount) (word : List Char) : Option Amount :=
  match word.dropWhile (· != '^') with
  | [] => lookup word
  | _ :: exponent => do
    return (← lookup (word.takeWhile (· != '^'))) ^ (← Digits.ofDecimal? exponent)

/-- Goes on with a word behind its sign. -/
def times? (a : Amount) (factor : Char × List Char) : Option Amount :=
  (ofWord? ofSymbol? factor.2).map fun b => if factor.1 = '/' then a / b else a * b

/-- Reads the text of a unit. -/
def ofUnit? (text : List Char) : Option Amount :=
  (ofWord? ofFirst? (words text).1).bind fun a => (words text).2.foldlM times? a

/-- Reads a number with a unit. -/
def ofText? (text : String) : Option Amount := do
  let number ← Ratio.ofText? (text.toList.takeWhile Ratio.isMark)
  return number • (← ofUnit? (text.toList.dropWhile Ratio.isMark))

theorem ofUnit?_append (front : List Char) {rest : List Char}
    (h : UnitAlias.isBoundary rest = true) :
    ofUnit? (front ++ rest) =
      (ofUnit? front).bind fun a => (words rest).2.foldlM times? a := by
  unfold ofUnit?
  rw [words_append_of_boundary front h]
  dsimp only
  rw [Option.bind_assoc]
  congr 1
  funext a
  rw [List.foldlM_append]
  rfl

/-! ## Multiples -/

theorem times?_smul (r : Rat) (a : Amount) (factor : Char × List Char) :
    times? (r • a) factor = (times? a factor).map (r • ·) := by
  unfold times?
  cases ofWord? ofSymbol? factor.2 with
  | none => rfl
  | some b =>
    rw [Option.map_some, Option.map_some, Option.map_some]
    congr 1
    split
    · exact Amount.ext (mul_div_assoc _ _ _) rfl
    · exact Amount.ext (mul_assoc _ _ _) rfl

theorem foldlM_times?_smul (r : Rat) (a : Amount) (factors : List (Char × List Char)) :
    factors.foldlM times? (r • a) = (factors.foldlM times? a).map (r • ·) := by
  induction factors generalizing a with
  | nil => rfl
  | cons factor factors ih =>
    rw [List.foldlM_cons, List.foldlM_cons, times?_smul]
    cases times? a factor with
    | none => rfl
    | some b => exact ih b

/-! ## Factors -/

theorem ofSymbol?_shortSymbol (u : MeasureUnit) :
    ofSymbol? u.shortSymbol.toList = some (one u) := by cases u <;> rfl

theorem ofFirst?_shortSymbol (u : MeasureUnit) :
    ofFirst? u.shortSymbol.toList = some (one u) := by cases u <;> rfl

theorem ofWord?_factorText (lookup : List Char → Option Amount) (f : UnitFactor) :
    ofWord? lookup (UnitProduct.factorText f).toList =
      (lookup f.unit.shortSymbol.toList).map (· ^ f.exponent.toInt.natAbs) := by
  have hsymbol : ∀ c ∈ f.unit.shortSymbol.toList, (c != '^') = true :=
    fun c hc => (noSign_shortSymbol _ c hc).2
  rw [toList_factorText]
  split
  · rename_i hone
    have hpow : ∀ a : Amount, a ^ 1 = a := fun a =>
      Amount.ext (pow_one _) (funext fun u => Int.one_mul _)
    rw [ofWord?, List.dropWhile_append_of_pos hsymbol, List.append_nil, hone]
    simp only [hpow, Option.map_id', List.dropWhile_nil]
  · rw [ofWord?, List.dropWhile_append_of_pos hsymbol, List.takeWhile_append_of_pos hsymbol]
    simp only [List.dropWhile_cons_of_neg, List.takeWhile_cons_of_neg, bne_self_eq_false,
      Bool.false_eq_true, not_false_eq_true, List.append_nil]
    rw [ofDecimal?_toString _ (natAbs_exponent_le _)]
    cases lookup f.unit.shortSymbol.toList <;> rfl

end Amount

/-! ## Products -/

/-- The power that a factor gives a base unit. -/
def UnitFactor.power (f : UnitFactor) (u : MeasureUnit) : Int :=
  if u = f.unit ∧ f.unit ≠ .dimensionless then f.exponent.toInt else 0

namespace UnitProduct

/-- The powers that a product gives the base units. -/
def powers (fs : UnitProduct) (u : MeasureUnit) : Int :=
  if u = .dimensionless then 0 else exponentOf fs u

theorem powers_cons (f : UnitFactor) (fs : UnitProduct) (u : MeasureUnit) :
    powers (f :: fs) u = f.power u + powers fs u := by
  unfold powers UnitFactor.power
  rw [exponentOf_cons]
  by_cases hu : u = .dimensionless
  · rw [if_pos hu, if_pos hu, if_neg (fun h => h.2 (h.1 ▸ hu))]
    rfl
  · rw [if_neg hu, if_neg hu]
    by_cases hf : f.unit = u
    · rw [if_pos hf, if_pos ⟨hf.symm, hf ▸ hu⟩]
    · rw [if_neg hf, if_neg (fun h => hf h.1.symm)]

end UnitProduct

namespace Amount

open UnitProduct

theorem powers_one_pow (u : MeasureUnit) (n : Nat) (v : MeasureUnit) :
    (one u ^ n).powers v = if v = u ∧ u ≠ .dimensionless then (n : Int) else 0 := by
  show (n : Int) * (one u).powers v = _
  unfold one
  dsimp only
  split
  · rw [Int.mul_one]
  · rw [Int.mul_zero]

/-- A factor behind its sign multiplies or divides by a power of its unit. -/
theorem times?_signed (a : Amount) (f : UnitFactor) :
    times? a (signed f) = some ⟨a.value, fun u => a.powers u + f.power u⟩ := by
  unfold times? signed
  dsimp only
  rw [ofWord?_factorText, ofSymbol?_shortSymbol, Option.map_some, Option.map_some]
  congr 1
  by_cases hneg : f.exponent < 0
  · have hlt : f.exponent.toInt < 0 := Int8.lt_iff_toInt_lt.1 hneg
    rw [if_pos ((sign_eq_iff f).2 hneg)]
    refine Amount.ext ?_ (funext fun v => ?_)
    · show a.value / 1 ^ f.exponent.toInt.natAbs = a.value
      rw [one_pow, div_one]
    · show a.powers v - _ = a.powers v + _
      rw [powers_one_pow, UnitFactor.power]
      split <;> omega
  · have hle : ¬ f.exponent.toInt < 0 := fun h => hneg (Int8.lt_iff_toInt_lt.2 h)
    rw [if_neg fun h => hneg ((sign_eq_iff f).1 h)]
    refine Amount.ext ?_ (funext fun v => ?_)
    · show a.value * 1 ^ f.exponent.toInt.natAbs = a.value
      rw [one_pow, mul_one]
    · show a.powers v + _ = a.powers v + _
      rw [powers_one_pow, UnitFactor.power]
      split <;> omega

/-- Factors behind their signs give the base units their powers. -/
theorem foldlM_signed (a : Amount) (fs : UnitProduct) :
    (fs.map signed).foldlM times? a =
      some ⟨a.value, fun u => a.powers u + fs.powers u⟩ := by
  induction fs generalizing a with
  | nil => exact congrArg some (Amount.ext rfl (funext fun u => by
      simp [UnitProduct.powers, exponentOf]))
  | cons f fs ih =>
    rw [List.map_cons, List.foldlM_cons, times?_signed]
    show List.foldlM times? _ _ = _
    rw [ih]
    exact congrArg some (Amount.ext rfl (funext fun u => by
      dsimp only
      rw [powers_cons, Int.add_assoc]))

/-- The text of a product is read as one of that product. -/
theorem ofUnit?_text {fs : UnitProduct} (h : fs ≠ []) :
    ofUnit? fs.text.toList = some ⟨1, fs.powers⟩ := by
  cases fs with
  | nil => exact absurd rfl h
  | cons f fs =>
    unfold ofUnit?
    rw [words_text]
    split
    · have hx : ofWord? ofFirst? ['x'] = some (one .dimensionless) := rfl
      dsimp only
      rw [hx, Option.bind_some, foldlM_signed]
      exact congrArg some (Amount.ext rfl (funext fun u => by simp [one]))
    · rename_i hneg
      have hle : ¬ f.exponent.toInt < 0 := fun h => hneg (Int8.lt_iff_toInt_lt.2 h)
      dsimp only
      rw [ofWord?_factorText, ofFirst?_shortSymbol, Option.map_some, Option.bind_some,
        foldlM_signed]
      refine congrArg some (Amount.ext (one_pow _) (funext fun u => ?_))
      dsimp only
      rw [powers_one_pow, powers_cons, UnitFactor.power]
      split <;> omega

end Amount

end Dxb
