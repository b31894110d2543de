import Dxb.Proofs.Quantity.Display
import Dxb.Proofs.Quantity.RoundTrip

/-!
# Texts with derived units

No symbol of a base unit is the name of a derived one, so the text of a product does not begin with
a name until it is shortened (`UnitProduct.noName_spelled`), and the shortened text still tells
which product it is (`UnitProduct.shownUnit_inj`).  The product tells by what the value was divided,
so the text of a quantity tells which quantity it is (`Quantity.text?_inj`).
-/

namespace Dxb

namespace UnitProduct

open UnitAlias

theorem noName_spelled (fs : UnitProduct) : NoName (spelled fs).toList := by
  have hsymbols : ∀ a ∈ all, ∀ u : MeasureUnit,
      a.name.toList.takeWhile (· != '^') ≠ u.shortSymbol.toList := by
    intro a ha u
    revert a
    cases u <;> decide
  intro a ha rest hrest heq
  have hfirst : (words (spelled fs).toList).1 = a.name.toList := by
    have hname := words_append (fun c hc => isBoundary_of_mem_name ha hc) []
    rw [List.append_nil] at hname
    rw [heq, words_append_of_boundary _ hrest, hname]
    exact List.append_nil _
  by_cases habove : IsAbove fs
  · obtain ⟨f, fs, rfl, hpos⟩ := habove
    rw [words_spelled_of_above hpos] at hfirst
    exact hsymbols a ha f.unit (hfirst ▸ takeWhile_factorText f)
  · rw [words_spelled_of_not_above habove] at hfirst
    have hx : ['x'] = a.name.toList := hfirst
    exact hsymbols a ha .dimensionless (hx ▸ rfl)

theorem noName_text (fs : UnitProduct) : NoName fs.text.toList := by
  cases fs with
  | nil =>
    have hnames : ∀ a ∈ all, a.name.toList ≠ [] := by decide
    exact fun a ha rest _ heq => hnames a ha (List.append_eq_nil_iff.1 heq.symm).1
  | cons f fs => exact spelled_cons f fs ▸ noName_spelled (f :: fs)

theorem spelled_eq_of_text_eq {fs gs : UnitProduct} (h : fs.text = gs.text) :
    spelled fs = spelled gs := by
  unfold spelled
  rw [h]

theorem shorten_text_inj {fs gs : UnitProduct} (hf : fs.IsNormal) (hg : gs.IsNormal)
    (h : (shorten fs.text).1 = (shorten gs.text).1) : fs = gs :=
  spelled_inj hf.unit_ne hg.unit_ne
    (spelled_eq_of_text_eq (shorten_inj (noName_text fs) (noName_text gs) h))

end UnitProduct

namespace Quantity

open UnitProduct

theorem shownUnit_inj {fs gs : UnitProduct} (hf : fs.IsNormal) (hg : gs.IsNormal)
    (h : shownUnit fs = shownUnit gs) : fs = gs := by
  rw [shownUnit_eq, shownUnit_eq] at h
  exact spelled_inj hf.unit_ne hg.unit_ne
    (UnitAlias.shorten_inj (noName_spelled fs) (noName_spelled gs) h)

theorem text?_inj {q q' : Quantity} (h : q.unit.IsNormal) (h' : q'.unit.IsNormal) {text : String}
    (htext : q.text? = some text) (htext' : q'.text? = some text) : q = q' := by
  obtain ⟨-, rfl⟩ := text?_eq_some_iff.1 htext
  obtain ⟨-, heq⟩ := text?_eq_some_iff.1 htext'
  have hlist := congrArg String.toList heq
  rw [String.toList_append, String.toList_append] at hlist
  obtain ⟨hscaled, hunit⟩ :=
    number_append_inj (startsUnit_shownUnit _) (startsUnit_shownUnit _) hlist
  have hunits : q.unit = q'.unit := shownUnit_inj h h' (String.toList_inj.1 hunit)
  have hdivisor : ((UnitAlias.shorten q'.unit.text).2 : Rat) ≠ 0 :=
    Nat.cast_ne_zero.2 (UnitAlias.divisor_ne_zero _)
  have hvalue : q.value = q'.value := by
    unfold shownValue at hscaled
    rw [hunits] at hscaled
    exact (div_left_inj' hdivisor).1 hscaled
  exact Quantity.ext hvalue hunits

end Quantity

open UnitAlias

/-- Of every text at most one expression is replaced: the first of those that stand at the start of
the text with a factor ending behind it; the divisor is that of the derived unit, and no text is
shortened twice.  Products in normal form are known by their shortened texts, and quantities by
their texts. -/
theorem shortened_texts_apart :
    (∀ text : String, (shorten text = (text, 1) ∧ ∀ a ∈ all, ¬ a.Leads text.toList) ∨
      ∃ before a after, all = before ++ a :: after ∧ (∀ b ∈ before, ¬ b.Leads text.toList) ∧
        (a.divisor = 1 ∨ a.divisor = 1000) ∧ ∃ rest, isBoundary rest = true ∧
        text.toList = a.expression.toList ++ rest ∧
        shorten text = (String.ofList (a.name.toList ++ rest), a.divisor)) ∧
    (∀ text : String, shorten (shorten text).1 = ((shorten text).1, 1)) ∧
    (∀ fs gs : UnitProduct, fs.IsNormal → gs.IsNormal →
      (shorten fs.text).1 = (shorten gs.text).1 → fs = gs) ∧
    ∀ q q' : Quantity, q.IsCanonical → q'.IsCanonical → ∀ text, q.text? = some text →
      q'.text? = some text → q = q' := by
  have hdivisors : ∀ a ∈ all, a.divisor = 1 ∨ a.divisor = 1000 := by decide
  refine ⟨fun text => ?_, shorten_shorten, fun fs gs => UnitProduct.shorten_text_inj, ?_⟩
  · rcases shorten_first text with ⟨hsame, hnone⟩ | ⟨before, a, after, hall, hnone, hreplaced⟩
    · exact .inl ⟨hsame, fun a ha => replaceIn?_eq_none_iff.1 (hnone a ha)⟩
    · have ha : a ∈ all := hall ▸ List.mem_append_right before List.mem_cons_self
      exact .inr ⟨before, a, after, hall, fun b hb => replaceIn?_eq_none_iff.1 (hnone b hb),
        hdivisors a ha, hreplaced⟩
  · intro q q' h h' text htext htext'
    exact Quantity.text?_inj h.unit h'.unit htext htext'

/-- Two and a half joules, with the units in two orders. -/
theorem shortened_texts_apart_of_joules :
    ∃ q q' : Quantity, Quantity.ofFraction? false 2500 1
        [⟨.second, -2⟩, ⟨.metre, 2⟩, ⟨.gram, 1⟩] = .ok q ∧
      Quantity.ofFraction? false 5000 2
        [⟨.metre, 1⟩, ⟨.gram, 1⟩, ⟨.second, -2⟩, ⟨.metre, 1⟩] = .ok q' ∧
      q.text? = some "2.5J" ∧ q'.text? = some "2.5J" ∧ q = q' := by
  let q : Quantity := ⟨2500, [⟨.gram, 1⟩, ⟨.metre, 2⟩, ⟨.second, -2⟩]⟩
  have hq : Quantity.ofFraction? false 2500 1
      [⟨.second, -2⟩, ⟨.metre, 2⟩, ⟨.gram, 1⟩] = .ok q := by decide +kernel
  have hq' : Quantity.ofFraction? false 5000 2
      [⟨.metre, 1⟩, ⟨.gram, 1⟩, ⟨.second, -2⟩, ⟨.metre, 1⟩] = .ok q := by decide +kernel
  have htext : q.text? = some "2.5J" := by decide +kernel
  have heq := shortened_texts_apart.2.2.2 q q (Quantity.isCanonical_of_ofFraction? hq)
    (Quantity.isCanonical_of_ofFraction? hq') _ htext htext
  exact ⟨q, q, hq, hq', htext, htext, heq⟩

end Dxb
