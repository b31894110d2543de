import Dxb.Text.Lines

/-!
# What indentation leaves alone

Indenting a text changes its line endings, puts spaces in front of its lines and drops line feeds at
its end.  All of that is layout (`isLayout`), so the solid text, which is what is left without it,
stays the same:

    solid (indent text) = solid text                           (solid_indent)
-/

namespace Dxb.Lines

/-- Spaces, line feeds and carriage returns. -/
def isLayout (c : Char) : Bool := c == ' ' || c == '\n' || c == '\r'

/-- A text without its layout. -/
def solid (text : List Char) : List Char := text.filter fun c => !isLayout c

@[simp] theorem solid_append (a b : List Char) : solid (a ++ b) = solid a ++ solid b :=
  List.filter_append a b

theorem solid_cons (c : Char) (text : List Char) : solid (c :: text) = solid [c] ++ solid text :=
  solid_append [c] text

@[simp] theorem solid_reverse (text : List Char) : solid text.reverse = (solid text).reverse :=
  List.filter_reverse ..

theorem solid_cons_layout {c : Char} (h : isLayout c = true) (text : List Char) :
    solid (c :: text) = solid text :=
  List.filter_cons_of_neg (by rw [h]; nofun)

theorem solid_dropWhile {p : Char → Bool} (hp : ∀ c, p c = true → isLayout c = true)
    (text : List Char) : solid (text.dropWhile p) = solid text := by
  induction text with
  | nil => rfl
  | cons c text ih =>
    rw [List.dropWhile_cons]
    split
    · rename_i hc
      rw [ih, solid_cons_layout (hp c hc)]
    · rfl

theorem solid_trimEnd (text : List Char) : solid (trimEnd text) = solid text := by
  have hdrop : solid (text.reverse.dropWhile (· == '\n')) = solid text.reverse := by
    apply solid_dropWhile
    intro c hc
    rw [beq_iff_eq.1 hc]
    rfl
  rw [trimEnd, solid_reverse, hdrop, solid_reverse, List.reverse_reverse]

theorem solid_chomp (text : String) : solid (chomp text).toList = solid text.toList := by
  unfold chomp
  split
  · rename_i rest hrest
    have htext : text.toList = rest.reverse ++ ['\n'] := by
      rw [← List.reverse_cons, ← hrest, List.reverse_reverse]
    rw [String.toList_ofList, htext, solid_append]
    exact (List.append_nil _).symm
  · rfl

/-! ## Lines -/

theorem solid_dropReturn (line : List Char) : solid (dropReturn line) = solid line := by
  unfold dropReturn
  split
  · exact (solid_cons_layout rfl _).symm
  · rfl

theorem solid_linesFrom (line text : List Char) :
    (linesFrom line text).flatMap solid = solid line.reverse ++ solid text := by
  induction text generalizing line with
  | nil =>
    unfold linesFrom
    split
    · rename_i hempty
      rw [List.isEmpty_iff.1 hempty]
      rfl
    · rw [List.flatMap_singleton, show solid [] = [] from rfl, List.append_nil]
  | cons c text ih =>
    unfold linesFrom
    split
    · rename_i hc
      have hlayout : isLayout c = true := by
        rw [hc]
        rfl
      rw [List.flatMap_cons, ih, solid_cons_layout hlayout, solid_reverse, solid_dropReturn,
        ← solid_reverse]
      rfl
    · rw [ih, List.reverse_cons, solid_append, List.append_assoc, ← solid_append]
      rfl

theorem solid_indentLine (line : List Char) : solid (indentLine line) = solid line := by
  unfold indentLine
  split
  · rename_i hempty
    rw [List.isEmpty_iff.1 hempty]
  · rfl

theorem solid_intercalate (lines : List (List Char)) :
    solid (List.intercalate ['\n'] lines) = lines.flatMap solid := by
  induction lines with
  | nil => rfl
  | cons line lines ih =>
    cases lines with
    | nil => simp [List.intercalate]
    | cons next lines =>
      have hcons : List.intercalate ['\n'] (line :: next :: lines) =
          line ++ '\n' :: List.intercalate ['\n'] (next :: lines) := by
        simp [List.intercalate]
      rw [hcons, solid_append, solid_cons_layout rfl, ih]
      rfl

theorem solid_indent (text : List Char) : solid (indent text) = solid text := by
  have hlines : (lines text).flatMap solid = solid text := solid_linesFrom [] text
  rw [indent, solid_intercalate, List.flatMap_map]
  simp only [solid_indentLine]
  exact hlines

end Dxb.Lines
