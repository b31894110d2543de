import Mathlib.Data.List.Nodup
import Dxb.Unit

/-!
# Derived units in texts

The expression of a derived unit is replaced by its name where it stands at the start of a text and
a factor ends behind it (`replaceIn?_eq_some_iff`).  No name begins like any of the expressions, so
at most one expression is replaced (`shorten_first`), and a text that begins with no name is known
by what it is shortened to (`shorten_inj`).
-/

namespace Dxb.UnitAlias

theorem afterStart?_eq_some_iff {start text rest : List Char} :
    afterStart? start text = some rest ↔ text = start ++ rest := by
  induction start generalizing text with
  | nil => simp [afterStart?, eq_comm]
  | cons c start ih =>
    cases text with
    | nil => simp [afterStart?]
    | cons d text =>
      unfold afterStart?
      split
      · rename_i heq
        rw [ih, heq, List.cons_append, List.cons.injEq, and_iff_right rfl]
      · rename_i hne
        simp [Ne.symm hne]

theorem replaceIn?_eq_some_iff {a : UnitAlias} {text text' : List Char} :
    a.replaceIn? text = some text' ↔ ∃ rest, isBoundary rest = true ∧
      text = a.expression.toList ++ rest ∧ text' = a.name.toList ++ rest := by
  unfold replaceIn?
  constructor
  · intro h
    split at h
    · rename_i rest hrest
      split at h
      · rename_i hboundary
        exact ⟨rest, hboundary, afterStart?_eq_some_iff.1 hrest, (Option.some.inj h).symm⟩
      · cases h
    · cases h
  · rintro ⟨rest, hboundary, rfl, rfl⟩
    rw [afterStart?_eq_some_iff.2 rfl]
    exact if_pos hboundary

/-- No expression begins like a name. -/
theorem replaceIn?_name {a b : UnitAlias} (ha : a ∈ all) (hb : b ∈ all) (rest : List Char) :
    b.replaceIn? (a.name.toList ++ rest) = none := by
  have hnames : ∀ a ∈ all, a.name.toList ≠ [] := by decide
  have hexpressions : ∀ b ∈ all, b.expression.toList ≠ [] := by decide
  have hheads : ∀ a ∈ all, ∀ b ∈ all, a.name.toList.head? ≠ b.expression.toList.head? := by decide
  cases h : b.replaceIn? (a.name.toList ++ rest) with
  | none => rfl
  | some text' =>
    obtain ⟨rest', -, heq, -⟩ := replaceIn?_eq_some_iff.1 h
    have hhead := congrArg List.head? heq
    rw [List.head?_append_of_ne_nil _ (hnames a ha),
      List.head?_append_of_ne_nil _ (hexpressions b hb)] at hhead
    exact absurd hhead (hheads a ha b hb)

theorem applyEach_eq_self {aliases : List UnitAlias} {text : List Char}
    (h : ∀ a ∈ aliases, a.replaceIn? text = none) (divisor : Nat) :
    applyEach text divisor aliases = (text, divisor) := by
  induction aliases with
  | nil => rfl
  | cons a aliases ih =>
    rw [applyEach, h a List.mem_cons_self]
    exact ih fun b hb => h b (List.mem_cons_of_mem _ hb)

/-- The first expression that can be replaced is, and no other. -/
theorem applyEach_eq (text : List Char) {aliases : List UnitAlias} (h : aliases ⊆ all) :
    (applyEach text 1 aliases = (text, 1) ∧ ∀ a ∈ aliases, a.replaceIn? text = none) ∨
      ∃ before a after, aliases = before ++ a :: after ∧
        (∀ b ∈ before, b.replaceIn? text = none) ∧ ∃ text', a.replaceIn? text = some text' ∧
        applyEach text 1 aliases = (text', a.divisor) := by
  induction aliases with
  | nil => exact .inl ⟨rfl, nofun⟩
  | cons a aliases ih =>
    have ha : a ∈ all := h List.mem_cons_self
    have hrest : aliases ⊆ all := fun b hb => h (List.mem_cons_of_mem _ hb)
    cases hreplace : a.replaceIn? text with
    | none =>
      rw [applyEach, hreplace]
      rcases ih hrest with ⟨hsame, hnone⟩ | ⟨before, b, after, rfl, hnone, hb⟩
      · exact .inl ⟨hsame, List.forall_mem_cons.2 ⟨hreplace, hnone⟩⟩
      · exact .inr ⟨a :: before, b, after, rfl, List.forall_mem_cons.2 ⟨hreplace, hnone⟩, hb⟩
    | some text' =>
      refine .inr ⟨[], a, aliases, rfl, nofun, text', hreplace, ?_⟩
      obtain ⟨rest, -, -, rfl⟩ := replaceIn?_eq_some_iff.1 hreplace
      rw [applyEach, hreplace]
      dsimp only
      rw [applyEach_eq_self fun b hb => replaceIn?_name ha (hrest hb) rest, Nat.one_mul]

/-- A text is left as it is, or the first expression that stands at its start is replaced. -/
theorem shorten_first (text : String) :
    (shorten text = (text, 1) ∧ ∀ a ∈ all, a.replaceIn? text.toList = none) ∨
      ∃ before a after, all = before ++ a :: after ∧
        (∀ b ∈ before, b.replaceIn? text.toList = none) ∧ ∃ rest, isBoundary rest = true ∧
        text.toList = a.expression.toList ++ rest ∧
        shorten text = (String.ofList (a.name.toList ++ rest), a.divisor) := by
  unfold shorten
  rcases applyEach_eq text.toList (List.Subset.refl all) with
    ⟨hsame, hnone⟩ | ⟨before, a, after, hall, hnone, text', hreplace, heq⟩
  · rw [hsame]
    exact .inl ⟨congrArg (·, 1) String.ofList_toList, hnone⟩
  · obtain ⟨rest, hboundary, htext, rfl⟩ := replaceIn?_eq_some_iff.1 hreplace
    rw [heq]
    exact .inr ⟨before, a, after, hall, hnone, rest, hboundary, htext, rfl⟩

/-- A text is left as it is, or one expression at its start is replaced. -/
theorem shorten_eq (text : String) :
    ((shorten text).1.toList = text.toList ∧ (shorten text).2 = 1 ∧
        ∀ a ∈ all, a.replaceIn? text.toList = none) ∨
      ∃ a ∈ all, ∃ rest, isBoundary rest = true ∧ text.toList = a.expression.toList ++ rest ∧
        (shorten text).1.toList = a.name.toList ++ rest ∧ (shorten text).2 = a.divisor := by
  rcases shorten_first text with
    ⟨hsame, hnone⟩ | ⟨before, a, after, hall, -, rest, hboundary, htext, heq⟩
  · rw [hsame]
    exact .inl ⟨rfl, rfl, hnone⟩
  · have ha : a ∈ all := hall ▸ List.mem_append_right before List.mem_cons_self
    rw [heq]
    exact .inr ⟨a, ha, rest, hboundary, htext, String.toList_ofList, rfl⟩

theorem divisor_ne_zero (text : String) : (shorten text).2 ≠ 0 := by
  have hdivisors : ∀ a ∈ all, a.divisor ≠ 0 := by decide
  rcases shorten_eq text with ⟨-, hone, -⟩ | ⟨a, ha, -, -, -, -, hdivisor⟩
  · rw [hone]
    exact Nat.one_ne_zero
  · rw [hdivisor]
    exact hdivisors a ha

/-! ## Shortened texts -/

/-- The expression stands at the start of a text, and a factor ends behind it. -/
def Leads (a : UnitAlias) (text : List Char) : Prop :=
  ∃ rest, isBoundary rest = true ∧ text = a.expression.toList ++ rest

theorem replaceIn?_eq_none_iff {a : UnitAlias} {text : List Char} :
    a.replaceIn? text = none ↔ ¬ a.Leads text := by
  rw [Option.eq_none_iff_forall_ne_some]
  constructor
  · rintro h ⟨rest, hboundary, htext⟩
    exact h _ (replaceIn?_eq_some_iff.2 ⟨rest, hboundary, htext, rfl⟩)
  · intro h text' hreplace
    obtain ⟨rest, hboundary, htext, -⟩ := replaceIn?_eq_some_iff.1 hreplace
    exact h ⟨rest, hboundary, htext⟩

/-- Nothing is left to replace in a shortened text. -/
theorem shorten_shorten (text : String) :
    shorten (shorten text).1 = ((shorten text).1, 1) := by
  have hnone : ∀ a ∈ all, a.replaceIn? (shorten text).1.toList = none := by
    rcases shorten_eq text with ⟨hsame, -, hnone⟩ | ⟨a, ha, rest, -, -, hname, -⟩
    · rwa [hsame]
    · rw [hname]
      exact fun b hb => replaceIn?_name ha hb rest
  rw [shorten, applyEach_eq_self hnone]
  exact congrArg (·, 1) String.ofList_toList

/-- No name of a derived unit stands at the start of a text with a factor ending behind it. -/
def NoName (text : List Char) : Prop :=
  ∀ a ∈ all, ∀ rest, isBoundary rest = true → text ≠ a.name.toList ++ rest

theorem isBoundary_of_mem_name {a : UnitAlias} (ha : a ∈ all) {c : Char}
    (hc : c ∈ a.name.toList) : isBoundary [c] = false := by
  have hall : (all.all fun a => a.name.toList.all fun c => !isBoundary [c]) = true := by decide
  simpa using List.all_eq_true.1 (List.all_eq_true.1 hall a ha) c hc

theorem name_append_inj {a b : UnitAlias} (ha : a ∈ all) (hb : b ∈ all) {rest rest' : List Char}
    (hrest : isBoundary rest = true) (hrest' : isBoundary rest' = true)
    (h : a.name.toList ++ rest = b.name.toList ++ rest') : a = b ∧ rest = rest' := by
  have hdistinct : (all.map (·.name)).Nodup := by decide
  have hcut : ∀ {a : UnitAlias} {rest : List Char}, a ∈ all → isBoundary rest = true →
      (a.name.toList ++ rest).takeWhile (fun c => !isBoundary [c]) = a.name.toList := by
    intro a rest ha hrest
    rw [List.takeWhile_append_of_pos fun c hc => by simp [isBoundary_of_mem_name ha hc]]
    cases rest with
    | nil => rw [List.takeWhile_nil, List.append_nil]
    | cons c rest =>
      have hc : isBoundary [c] = true := hrest
      rw [List.takeWhile_cons_of_neg (by simp [hc]), List.append_nil]
  have hname : a.name.toList = b.name.toList := by rw [← hcut ha hrest, h, hcut hb hrest']
  rw [hname, List.append_right_inj] at h
  exact ⟨List.inj_on_of_nodup_map hdistinct ha hb (String.toList_inj.1 hname), h⟩

/-- Texts that begin with no name are known by what they are shortened to. -/
theorem shorten_inj {s t : String} (hs : NoName s.toList) (ht : NoName t.toList)
    (h : (shorten s).1 = (shorten t).1) : s = t := by
  apply String.toList_inj.1
  rcases shorten_eq s with ⟨hsame, -⟩ | ⟨a, ha, rest, hrest, hstext, hname, -⟩
  · rcases shorten_eq t with ⟨hsame', -⟩ | ⟨b, hb, rest', hrest', -, hname', -⟩
    · rw [← hsame, h, hsame']
    · rw [← hsame, h] at hs
      exact absurd hname' (hs b hb rest' hrest')
  · rcases shorten_eq t with ⟨hsame', -⟩ | ⟨b, hb, rest', hrest', httext, hname', -⟩
    · rw [← hsame', ← h] at ht
      exact absurd hname (ht a ha rest hrest)
    · rw [h, hname'] at hname
      obtain ⟨rfl, rfl⟩ := name_append_inj hb ha hrest' hrest hname
      rw [hstext, httext]

end Dxb.UnitAlias
