import Dxb.Proofs.Text.Indentation

/-!
# Paired brackets

A text is read with the closing brackets that are due, the next one first (`due`).  Its brackets are
paired if every closing bracket in it is the one that is due and none is due at its end.  Such a
text changes nothing around it (`Paired.keeps`), and layout plays no part:

    Paired (solid text) ↔ Paired text                             (paired_solid_iff)
-/

namespace Dxb.Brackets

/-- The bracket that closes an opening one. -/
def closer? (c : Char) : Option Char :=
  if c = '(' then some ')'
  else if c = '[' then some ']'
  else if c = '\x7b' then some '\x7d'
  else none

def isCloser (c : Char) : Bool := c == ')' || c == ']' || c == '\x7d'

/-- The closing brackets that are due behind a character, where some are due in front of it.  After
a closing bracket that is not due there is no answer. -/
def dueAfter (before : List Char) (c : Char) : Option (List Char) :=
  match closer? c with
  | some closer => some (closer :: before)
  | none =>
    if isCloser c then if before.head? = some c then some before.tail else none else some before

def due (before text : List Char) : Option (List Char) := text.foldlM dueAfter before

/-- Brackets of three kinds stand in pairs, one within the other or one behind the other. -/
def Paired (text : List Char) : Prop := due [] text = some []

instance : DecidablePred Paired := fun text => inferInstanceAs (Decidable (due [] text = some []))

/-- A text that leaves due what was due in front of it. -/
def Keeps (before text : List Char) : Prop := due before text = some before

variable {before text : List Char}

theorem due_cons (before : List Char) (c : Char) (text : List Char) :
    due before (c :: text) = (dueAfter before c).bind fun between => due between text := rfl

theorem due_append (before a b : List Char) :
    due before (a ++ b) = (due before a).bind fun between => due between b :=
  List.foldlM_append

/-- What else is due further out stays so. -/
theorem dueAfter_append {a b : List Char} {c : Char} (h : dueAfter a c = some b)
    (outer : List Char) : dueAfter (a ++ outer) c = some (b ++ outer) := by
  unfold dueAfter at h ⊢
  split at h
  · cases h
    rfl
  · split at h
    · rename_i hcloser
      rw [if_pos hcloser]
      split at h
      · rename_i hnext
        cases a with
        | nil => cases hnext
        | cons next inner =>
          cases h
          exact if_pos hnext
      · cases h
    · rename_i hcloser
      cases h
      exact if_neg hcloser

theorem due_of_due {a b : List Char} (h : due a text = some b) (outer : List Char) :
    due (a ++ outer) text = some (b ++ outer) := by
  induction text generalizing a with
  | nil =>
    cases h
    rfl
  | cons c text ih =>
    obtain ⟨between, hc, htext⟩ := Option.bind_eq_some_iff.1 h
    rw [due_cons, dueAfter_append hc outer]
    exact ih htext

theorem Paired.keeps (h : Paired text) (before : List Char) : Keeps before text := by
  have hdue := due_of_due h before
  rwa [List.nil_append] at hdue

theorem Keeps.append {a b : List Char} (ha : Keeps before a) (hb : Keeps before b) :
    Keeps before (a ++ b) := by
  unfold Keeps at *
  rw [due_append, ha]
  exact hb

theorem paired_nil : Paired [] := rfl

/-- The brackets of a text are paired if its beginning makes something due that its middle keeps due
and its end settles. -/
theorem Keeps.enclose {opener closer : List Char} (h : Keeps before text)
    (hopener : due [] opener = some before) (hcloser : due before closer = some []) :
    Paired (opener ++ text ++ closer) := by
  unfold Keeps at h
  unfold Paired
  rw [due_append, due_append, hopener, Option.bind_some, h, Option.bind_some, hcloser]

/-! ## Layout -/

theorem dueAfter_layout {c : Char} (h : Lines.isLayout c = true) (before : List Char) :
    dueAfter before c = some before := by
  have hc : c = ' ' ∨ c = '\n' ∨ c = '\r' := by
    simpa [Lines.isLayout, or_assoc] using h
  rcases hc with rfl | rfl | rfl <;> rfl

theorem due_solid (before text : List Char) : due before (Lines.solid text) = due before text := by
  induction text generalizing before with
  | nil => rfl
  | cons c text ih =>
    cases hc : Lines.isLayout c with
    | true =>
      rw [Lines.solid_cons_layout hc, due_cons, dueAfter_layout hc, ih]
      rfl
    | false =>
      have hsolid : Lines.solid (c :: text) = c :: Lines.solid text :=
        List.filter_cons_of_pos (by rw [hc]; rfl)
      rw [hsolid, due_cons, due_cons]
      simp only [ih]

theorem paired_solid_iff (text : List Char) : Paired (Lines.solid text) ↔ Paired text := by
  unfold Paired
  rw [due_solid]

end Dxb.Brackets
