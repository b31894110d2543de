/-!
# Blanks

The characters that Unicode counts as white space.
-/

namespace Dxb.Blank

/-- The code points from the first to the last of each run of white space. -/
def runs : List (Nat × Nat) :=
  [(0x09, 0x0D), (0x20, 0x20), (0x85, 0x85), (0xA0, 0xA0), (0x1680, 0x1680), (0x2000, 0x200A),
    (0x2028, 0x2029), (0x202F, 0x202F), (0x205F, 0x205F), (0x3000, 0x3000)]

def isBlank (c : Char) : Bool := runs.any fun (first, last) => first ≤ c.toNat && c.toNat ≤ last

/-- A text without the blanks at its ends. -/
def trim (text : List Char) : List Char :=
  ((text.dropWhile isBlank).reverse.dropWhile isBlank).reverse

/-- A text without any of its blanks. -/
def remove (text : List Char) : List Char := text.filter fun c => !isBlank c

/-! ## Lemmas -/

theorem trim_eq_self {text : List Char} (h : ∀ c ∈ text, isBlank c = false) : trim text = text := by
  have dropped : ∀ l : List Char, (∀ c ∈ l, isBlank c = false) → l.dropWhile isBlank = l := by
    intro l hl
    cases l with
    | nil => rfl
    | cons c l => simp [hl c (by simp)]
  rw [trim, dropped text h, dropped text.reverse (by simpa using h), List.reverse_reverse]

theorem remove_eq_self {text : List Char} (h : ∀ c ∈ text, isBlank c = false) :
    remove text = text := by
  simpa [remove, List.filter_eq_self] using h

end Dxb.Blank
