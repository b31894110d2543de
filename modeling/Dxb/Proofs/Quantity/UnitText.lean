import Mathlib.Data.List.Basic
import Dxb.Proofs.Decimal.Expansion
import Dxb.Unit

/-!
# Units as text

The text of a product of units is words with signs between them (`words`): one for each factor,
whose sign and text tell which factor it is (`factorText_inj`), and `x` in front when the product
starts below the line (`words_text`).  So a product that starts above the line begins another one
when its text does so up to the end of a word (`text_prefix_iff`), and a product is known by its
text (`spelled_inj`), also behind a number (`number_append_inj`).
-/

namespace Dxb.UnitProduct

/-! ## Words -/

def isSign (c : Char) : Bool := c == '*' || c == '/'

/-- The first word of a text, and the others, each with the sign in front of it. -/
def words : List Char → List Char × List (Char × List Char)
  | [] => ([], [])
  | c :: text =>
    let (first, rest) := words text
    if isSign c then ([], (c, first) :: rest) else (c :: first, rest)

theorem words_append {word : List Char} (h : ∀ c ∈ word, isSign c = false) (text : List Char) :
    words (word ++ text) = (word ++ (words text).1, (words text).2) := by
  induction word with
  | nil => rfl
  | cons c word ih =>
    have hc : isSign c = false := h c List.mem_cons_self
    rw [List.cons_append, words, ih fun d hd => h d (List.mem_cons_of_mem _ hd), hc]
    rfl

theorem words_cons_of_isSign {c : Char} (h : isSign c = true) (text : List Char) :
    words (c :: text) = ([], (c, (words text).1) :: (words text).2) := by
  rw [words]
  exact if_pos h

/-- Where a word ends, the words in front and those behind are told apart. -/
theorem words_append_of_boundary (front : List Char) {rest : List Char}
    (h : UnitAlias.isBoundary rest = true) :
    words (front ++ rest) = ((words front).1, (words front).2 ++ (words rest).2) := by
  induction front with
  | nil =>
    cases rest with
    | nil => rfl
    | cons c rest =>
      rw [List.nil_append, words_cons_of_isSign h]
      rfl
  | cons c front ih =>
    rw [List.cons_append, words, words, ih]
    dsimp only
    split <;> rfl

/-! ## Factors -/

/-- The sign in front of a factor. -/
def sign (f : UnitFactor) : Char := if f.exponent < 0 then '/' else '*'

theorem isSign_sign (f : UnitFactor) : isSign (sign f) = true := by
  unfold sign
  split <;> rfl

theorem sign_eq_iff (f : UnitFactor) : sign f = '/' ↔ f.exponent < 0 := by
  unfold sign
  split
  · rename_i h
    exact iff_of_true rfl h
  · rename_i h
    exact iff_of_false (by decide) h

theorem noSign_shortSymbol (u : MeasureUnit) :
    ∀ c ∈ u.shortSymbol.toList, isSign c = false ∧ (c != '^') = true := by
  have hall : u.shortSymbol.toList.all (fun c => !isSign c && c != '^') = true := by
    cases u <;> decide
  simpa using hall

/-- Exponents have one byte. -/
theorem natAbs_exponent_le (e : Int8) : e.toInt.natAbs ≤ 128 := by
  have hmin := e.le_toInt
  have hmax := e.toInt_lt
  omega

theorem ofDecimal?_toString : ∀ n ≤ 128, Digits.ofDecimal? (toString n).toList = some n := by
  decide +kernel

theorem isSign_of_isDigit {c : Char} (h : c.isDigit = true) : isSign c = false := by
  refine Bool.eq_false_iff.2 fun hsign => ?_
  rcases Bool.or_eq_true_iff.1 hsign with heq | heq
  · rw [beq_iff_eq.1 heq] at h
    exact absurd h (by decide)
  · rw [beq_iff_eq.1 heq] at h
    exact absurd h (by decide)

theorem toList_factorText (f : UnitFactor) : (factorText f).toList =
    f.unit.shortSymbol.toList ++ if f.exponent.toInt.natAbs = 1 then []
      else '^' :: (toString f.exponent.toInt.natAbs).toList := by
  unfold factorText
  dsimp only
  rw [String.toList_append]
  split
  · rfl
  · rw [String.toList_append]
    rfl

theorem noSign_factorText (f : UnitFactor) :
    ∀ c ∈ (factorText f).toList, isSign c = false := by
  intro c hc
  rw [toList_factorText] at hc
  rcases List.mem_append.1 hc with hc | hc
  · exact (noSign_shortSymbol _ c hc).1
  · split at hc
    · cases hc
    · rcases List.mem_cons.1 hc with rfl | hc
      · rfl
      · have hread := ofDecimal?_toString _ (natAbs_exponent_le f.exponent)
        exact isSign_of_isDigit (Digits.isDigit_of_ofDecimal? hread c hc)

theorem shortSymbol_inj : ∀ u v : MeasureUnit,
    u.shortSymbol.toList = v.shortSymbol.toList → u = v := by
  intro u v
  cases u <;> cases v <;> first | exact fun _ => rfl | exact fun h => absurd h (by decide)

theorem shortSymbol_ne_nil (u : MeasureUnit) : u.shortSymbol.toList ≠ [] := by
  cases u <;> decide

theorem takeWhile_factorText (f : UnitFactor) :
    (factorText f).toList.takeWhile (· != '^') = f.unit.shortSymbol.toList := by
  have hsymbol : ∀ c ∈ f.unit.shortSymbol.toList, (c != '^') = true :=
    fun c hc => (noSign_shortSymbol _ c hc).2
  rw [toList_factorText, List.takeWhile_append_of_pos hsymbol]
  split <;> simp

theorem factorText_ne_x {f : UnitFactor} (h : f.unit ≠ .dimensionless) :
    (factorText f).toList ≠ ['x'] := by
  intro hx
  have hsymbol := takeWhile_factorText f
  rw [hx] at hsymbol
  exact h (shortSymbol_inj .dimensionless f.unit hsymbol).symm

/-- A factor is known by its sign and its text. -/
theorem factorText_inj {f g : UnitFactor} (hsign : sign f = sign g)
    (h : (factorText f).toList = (factorText g).toList) : f = g := by
  have hunit : f.unit = g.unit := by
    apply shortSymbol_inj
    rw [← takeWhile_factorText, h, takeWhile_factorText]
  have hmagnitude : f.exponent.toInt.natAbs = g.exponent.toInt.natAbs := by
    rw [toList_factorText, toList_factorText, hunit, List.append_right_inj] at h
    split at h
    · rename_i hf
      split at h
      · rename_i hg
        rw [hf, hg]
      · cases h
    · split at h
      · cases h
      · have hread := congrArg Digits.ofDecimal? (List.cons.inj h).2
        rw [ofDecimal?_toString _ (natAbs_exponent_le _),
          ofDecimal?_toString _ (natAbs_exponent_le _)] at hread
        exact Option.some.inj hread
  have hsigns : f.exponent < 0 ↔ g.exponent < 0 := by
    rw [← sign_eq_iff, ← sign_eq_iff, hsign]
  have hexponent : f.exponent = g.exponent := by
    rw [Int8.lt_iff_toInt_lt, Int8.lt_iff_toInt_lt] at hsigns
    have hzero : (0 : Int8).toInt = 0 := rfl
    apply Int8.toInt_inj.1
    omega
  obtain ⟨u, e⟩ := f
  obtain ⟨v, e'⟩ := g
  exact congrArg₂ UnitFactor.mk hunit hexponent

/-! ## Products -/

/-- A factor as a word behind its sign. -/
def signed (f : UnitFactor) : Char × List Char := (sign f, (factorText f).toList)

theorem signed_injective : Function.Injective signed := fun _ _ h =>
  factorText_inj (congrArg Prod.fst h) (congrArg Prod.snd h)

theorem toList_tailText_cons (f : UnitFactor) (fs : UnitProduct) :
    (tailText (f :: fs)).toList = sign f :: ((factorText f).toList ++ (tailText fs).toList) := by
  unfold tailText sign
  rw [List.map_cons, String.join_cons, String.toList_append, String.toList_append]
  split <;> rfl

theorem words_tailText (fs : UnitProduct) : words (tailText fs).toList = ([], fs.map signed) := by
  induction fs with
  | nil => rfl
  | cons f fs ih =>
    rw [toList_tailText_cons, words_cons_of_isSign (isSign_sign f),
      words_append (noSign_factorText f), ih, List.append_nil]
    rfl

theorem isBoundary_tailText (fs : UnitProduct) :
    UnitAlias.isBoundary (tailText fs).toList = true := by
  cases fs with
  | nil => rfl
  | cons f fs =>
    rw [toList_tailText_cons]
    exact isSign_sign f

theorem text_of_neg {f : UnitFactor} (h : f.exponent < 0) (fs : UnitProduct) :
    text (f :: fs) = "x" ++ tailText (f :: fs) := by
  show (if f.exponent < 0 then "x/" else "") ++ factorText f ++ tailText fs = _
  unfold tailText
  rw [if_pos h, List.map_cons, String.join_cons, if_pos h, ← String.append_assoc,
    ← String.append_assoc]
  rfl

theorem text_of_not_neg {f : UnitFactor} (h : ¬ f.exponent < 0) (fs : UnitProduct) :
    text (f :: fs) = factorText f ++ tailText fs := by
  show (if f.exponent < 0 then "x/" else "") ++ factorText f ++ tailText fs = _
  rw [if_neg h, String.empty_append]

/-- The words of the text of a product.  Below the line, the first one is `x`. -/
theorem words_text (f : UnitFactor) (fs : UnitProduct) :
    words (text (f :: fs)).toList = if f.exponent < 0 then (['x'], (f :: fs).map signed)
      else ((factorText f).toList, fs.map signed) := by
  split
  · rename_i h
    have hx : ∀ c ∈ "x".toList, isSign c = false := fun c hc =>
      List.mem_singleton.1 hc ▸ rfl
    rw [text_of_neg h, String.toList_append, words_append hx, words_tailText, List.append_nil]
    rfl
  · rename_i h
    rw [text_of_not_neg h, String.toList_append, words_append (noSign_factorText f),
      words_tailText, List.append_nil]

/-- A product above the line begins another one when its text does, up to the end of a factor. -/
theorem text_prefix_iff {g : UnitFactor} (hg : ¬ g.exponent < 0) (hu : g.unit ≠ .dimensionless)
    (gs fs : UnitProduct) :
    (∃ rest, UnitAlias.isBoundary rest = true ∧
      (text fs).toList = (text (g :: gs)).toList ++ rest) ↔ g :: gs <+: fs := by
  constructor
  · rintro ⟨rest, hboundary, htext⟩
    have hwords := congrArg words htext
    rw [words_append_of_boundary _ hboundary, words_text g, if_neg hg] at hwords
    cases fs with
    | nil =>
      have hnil : [] = (factorText g).toList := congrArg Prod.fst hwords
      have hsymbol := takeWhile_factorText g
      rw [← hnil] at hsymbol
      exact absurd hsymbol.symm (shortSymbol_ne_nil g.unit)
    | cons f fs =>
      rw [words_text f] at hwords
      split at hwords
      · have hx : ['x'] = (factorText g).toList := congrArg Prod.fst hwords
        exact absurd hx.symm (factorText_ne_x hu)
      · rename_i hf
        have hfirst : (factorText f).toList = (factorText g).toList := congrArg Prod.fst hwords
        have hrest : fs.map signed = gs.map signed ++ (words rest).2 :=
          congrArg Prod.snd hwords
        have hsign : sign f = sign g := by rw [sign, sign, if_neg hf, if_neg hg]
        obtain ⟨front, behind, rfl, hfront, -⟩ := List.map_eq_append_iff.1 hrest
        rw [factorText_inj hsign hfirst, (List.map_injective_iff.2 signed_injective) hfront]
        exact ⟨behind, rfl⟩
  · rintro ⟨rest, rfl⟩
    refine ⟨(tailText rest).toList, isBoundary_tailText rest, ?_⟩
    rw [List.cons_append, text_of_not_neg hg, text_of_not_neg hg]
    simp [tailText, String.toList_join]

/-! ## Products by their texts -/

/-- The text of a product, or `x` when there is none. -/
def spelled (fs : UnitProduct) : String :=
  if fs.text = "" then MeasureUnit.dimensionless.symbol else fs.text

theorem text_ne_empty (f : UnitFactor) (fs : UnitProduct) : text (f :: fs) ≠ "" := by
  intro hempty
  have hwords := words_text f fs
  rw [hempty] at hwords
  split at hwords
  · cases hwords
  · have hnil : [] = (factorText f).toList := congrArg Prod.fst hwords
    have hsymbol := takeWhile_factorText f
    rw [← hnil] at hsymbol
    exact shortSymbol_ne_nil f.unit hsymbol.symm

theorem spelled_cons (f : UnitFactor) (fs : UnitProduct) : spelled (f :: fs) = text (f :: fs) :=
  if_neg (text_ne_empty f fs)

/-- A product is above the line when its first factor is. -/
def IsAbove (fs : UnitProduct) : Prop := ∃ f gs, fs = f :: gs ∧ ¬ f.exponent < 0

theorem words_spelled_of_above {f : UnitFactor} (h : ¬ f.exponent < 0) (fs : UnitProduct) :
    words (spelled (f :: fs)).toList = ((factorText f).toList, fs.map signed) := by
  rw [spelled_cons, words_text, if_neg h]

/-- All factors of a product that is not above the line stand behind an `x`. -/
theorem words_spelled_of_not_above {fs : UnitProduct} (h : ¬ IsAbove fs) :
    words (spelled fs).toList = (['x'], fs.map signed) := by
  cases fs with
  | nil => rfl
  | cons f fs =>
    have hneg : f.exponent < 0 := by
      by_contra hnot
      exact h ⟨f, fs, rfl, hnot⟩
    rw [spelled_cons, words_text, if_pos hneg]

/-- A product of powers of units other than the dimensionless one is known by its text. -/
theorem spelled_inj {fs gs : UnitProduct} (hf : ∀ f ∈ fs, f.unit ≠ .dimensionless)
    (hg : ∀ g ∈ gs, g.unit ≠ .dimensionless) (h : spelled fs = spelled gs) : fs = gs := by
  have hwords : words (spelled fs).toList = words (spelled gs).toList := by rw [h]
  by_cases hfs : IsAbove fs
  · obtain ⟨f, fs, rfl, hfpos⟩ := hfs
    rw [words_spelled_of_above hfpos] at hwords
    by_cases hgs : IsAbove gs
    · obtain ⟨g, gs, rfl, hgpos⟩ := hgs
      rw [words_spelled_of_above hgpos] at hwords
      have hsign : sign f = sign g := by rw [sign, sign, if_neg hfpos, if_neg hgpos]
      rw [factorText_inj hsign (congrArg Prod.fst hwords),
        List.map_injective_iff.2 signed_injective (congrArg Prod.snd hwords)]
    · rw [words_spelled_of_not_above hgs] at hwords
      exact absurd (congrArg Prod.fst hwords) (factorText_ne_x (hf f List.mem_cons_self))
  · rw [words_spelled_of_not_above hfs] at hwords
    by_cases hgs : IsAbove gs
    · obtain ⟨g, gs, rfl, hgpos⟩ := hgs
      rw [words_spelled_of_above hgpos] at hwords
      exact absurd (congrArg Prod.fst hwords).symm (factorText_ne_x (hg g List.mem_cons_self))
    · rw [words_spelled_of_not_above hgs] at hwords
      exact List.map_injective_iff.2 signed_injective (congrArg Prod.snd hwords)

/-! ## Behind a number -/

/-- No unit begins like a number goes on. -/
def StartsUnit (text : List Char) : Prop := text.head?.any (fun c => !Ratio.isMark c) = true

theorem StartsUnit.append {front : List Char} (h : StartsUnit front) (rest : List Char) :
    StartsUnit (front ++ rest) := by
  cases front with
  | nil => cases h
  | cons c front => exact h

theorem StartsUnit.exists_cons {text : List Char} (h : StartsUnit text) :
    ∃ c rest, text = c :: rest ∧ ¬ Ratio.isMark c = true := by
  cases text with
  | nil => cases h
  | cons c rest => exact ⟨c, rest, rfl, by simpa [StartsUnit] using h⟩

theorem startsUnit_text {fs : UnitProduct} (h : fs ≠ []) : StartsUnit fs.text.toList := by
  have hsymbol : ∀ u : MeasureUnit, StartsUnit u.shortSymbol.toList := by
    intro u
    unfold StartsUnit
    cases u <;> decide
  cases fs with
  | nil => exact absurd rfl h
  | cons f fs =>
    by_cases hneg : f.exponent < 0
    · rw [text_of_neg hneg, String.toList_append]
      exact (hsymbol .dimensionless).append _
    · rw [text_of_not_neg hneg, String.toList_append, toList_factorText, List.append_assoc]
      exact (hsymbol f.unit).append _

theorem startsUnit_spelled (fs : UnitProduct) : StartsUnit (spelled fs).toList := by
  cases fs with
  | nil => rfl
  | cons f fs =>
    rw [spelled_cons]
    exact startsUnit_text (List.cons_ne_nil f fs)

/-! ## Numbers with a unit -/

/-- A number with a unit behind it has a text if the number has one. -/
theorem map_text?_eq_some_iff {r : Rat} {unit text : String} :
    (Ratio.text? r).map (· ++ unit) = some text ↔
      Ratio.Writable r ∧ text = Ratio.written r ++ unit := by
  rw [Option.map_eq_some_iff]
  constructor
  · rintro ⟨number, hnumber, rfl⟩
    obtain ⟨hwritable, rfl⟩ := Ratio.text?_eq_some_iff.1 hnumber
    exact ⟨hwritable, rfl⟩
  · rintro ⟨hwritable, rfl⟩
    exact ⟨_, Ratio.text?_eq_some_iff.2 ⟨hwritable, rfl⟩, rfl⟩

theorem map_text?_eq_none_iff {r : Rat} {unit : String} :
    (Ratio.text? r).map (· ++ unit) = none ↔
      (∃ k, r.den ∣ 10 ^ k) ∧ ¬ r.den ∣ 10 ^ Ratio.maxPlaces := by
  rw [Option.map_eq_none_iff, Ratio.text?_eq_none_iff]

section

variable {unit unit' : List Char}

theorem takeWhile_number_append (r : Rat) (h : StartsUnit unit) :
    ((Ratio.written r).toList ++ unit).takeWhile Ratio.isMark = (Ratio.written r).toList := by
  obtain ⟨c, rest, rfl, hc⟩ := h.exists_cons
  rw [List.takeWhile_append_of_pos fun _ => Ratio.isMark_of_mem_written,
    List.takeWhile_cons_of_neg hc, List.append_nil]

theorem dropWhile_number_append (r : Rat) (h : StartsUnit unit) :
    ((Ratio.written r).toList ++ unit).dropWhile Ratio.isMark = unit := by
  obtain ⟨c, rest, rfl, hc⟩ := h.exists_cons
  rw [List.dropWhile_append_of_pos fun _ => Ratio.isMark_of_mem_written,
    List.dropWhile_cons_of_neg hc]

/-- A number and a unit behind it are told apart. -/
theorem number_append_inj {r r' : Rat} (h : StartsUnit unit) (h' : StartsUnit unit')
    (heq : (Ratio.written r).toList ++ unit = (Ratio.written r').toList ++ unit') :
    r = r' ∧ unit = unit' := by
  constructor
  · have hnumber := congrArg (List.takeWhile Ratio.isMark) heq
    rw [takeWhile_number_append r h, takeWhile_number_append r' h'] at hnumber
    exact Ratio.written_injective (String.toList_inj.1 hnumber)
  · have hunit := congrArg (List.dropWhile Ratio.isMark) heq
    rwa [dropWhile_number_append r h, dropWhile_number_append r' h'] at hunit

end

end Dxb.UnitProduct
