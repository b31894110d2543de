import Mathlib.Logic.Basic
import Dxb.Text.Quoted

/-!
# Text literals

A literal is read by undoing its escapes (`IsLiteral`).  Nothing in it ends it early, whatever
stands behind it: a reader that goes on to the first double quote without a backslash of its own
finds the one that ends the literal (`untilQuote?`).

    untilQuote? (escape k s ++ '"' :: rest) = some (escape k s, rest)     (untilQuote?_escape_quote)
-/

namespace Dxb.Quoted

/-! ## Reading a literal -/

/-- A text between double quotes from which a string is read: no double quote stands alone inside,
and what undoes the escapes gives the string. -/
def IsLiteral (text : List Char) (s : String) : Prop :=
  ∃ inside, text = '"' :: inside ++ ['"'] ∧ unescape? inside = some s.toList

theorem isLiteral_literal (keepNewlines : Bool) (s : String) :
    IsLiteral (literal keepNewlines s).toList s :=
  ⟨escape keepNewlines s.toList, String.toList_ofList, unescape?_escape keepNewlines s.toList⟩

theorem isLiteral_enclosed_iff {inside : List Char} {s : String} :
    IsLiteral ('"' :: inside ++ ['"']) s ↔ unescape? inside = some s.toList := by
  constructor
  · rintro ⟨other, hother, h⟩
    rwa [List.append_cancel_right (List.cons.inj hother).2]
  · exact fun h => ⟨inside, rfl, h⟩

theorem IsLiteral.unique {text : List Char} {s s' : String} (h : IsLiteral text s)
    (h' : IsLiteral text s') : s = s' := by
  obtain ⟨inside, rfl, hs⟩ := h
  rw [isLiteral_enclosed_iff, hs] at h'
  exact String.toList_injective (Option.some.inj h')

/-- A backslash and what follows it are read as one character. -/
theorem exists_of_unescape?_pair {e : Char} {rest u : List Char}
    (h : unescape? ('\\' :: e :: rest) = some u) :
    ∃ c v, u = c :: v ∧ unescape? rest = some v := by
  rw [unescape?] at h
  split at h
  · obtain ⟨v, hv, rfl⟩ := Option.map_eq_some_iff.1 h
    exact ⟨e, v, rfl, hv⟩
  split at h
  · obtain ⟨v, hv, rfl⟩ := Option.map_eq_some_iff.1 h
    exact ⟨'\n', v, rfl, hv⟩
  split at h
  · obtain ⟨v, hv, rfl⟩ := Option.map_eq_some_iff.1 h
    exact ⟨'\r', v, rfl, hv⟩
  split at h
  · obtain ⟨v, hv, rfl⟩ := Option.map_eq_some_iff.1 h
    exact ⟨'\t', v, rfl, hv⟩
  · cases h

/-! ## Characters of a literal -/

variable {keepNewlines : Bool} {text : String} {c : Char}

/-- What no escape is made of is in a literal only where it stands for itself. -/
theorem mem_escapeChar_iff (hc : c ∉ ['\\', '"', 'n', 'r', 't']) (d : Char) :
    c ∈ escapeChar keepNewlines d ↔ c = d ∧ Plain keepNewlines c := by
  by_cases hplain : Plain keepNewlines d
  · rw [escapeChar_of_plain hplain, List.mem_singleton]
    constructor
    · rintro rfl
      exact ⟨rfl, hplain⟩
    · exact And.left
  · obtain ⟨e, he, hescape⟩ := exists_escapeChar_of_not_plain hplain
    rw [hescape]
    constructor
    · intro h
      rcases List.mem_cons.1 h with rfl | h
      · exact absurd List.mem_cons_self hc
      · rw [List.mem_singleton.1 h] at hc
        exact absurd he hc
    · rintro ⟨rfl, h⟩
      exact absurd h hplain

theorem mem_literal_iff (hc : c ∉ ['\\', '"', 'n', 'r', 't']) :
    c ∈ (literal keepNewlines text).toList ↔ c ∈ text.toList ∧ Plain keepNewlines c := by
  have hquote : c ≠ '"' := by
    rintro rfl
    exact hc (by simp)
  rw [literal, String.toList_ofList, List.cons_append, List.mem_cons, or_iff_right hquote,
    List.mem_append, List.mem_singleton, or_iff_left hquote, escape, List.mem_flatMap]
  simp only [mem_escapeChar_iff hc]
  constructor
  · rintro ⟨d, hd, rfl, hplain⟩
    exact ⟨hd, hplain⟩
  · rintro ⟨hd, hplain⟩
    exact ⟨c, hd, rfl, hplain⟩

/-- A literal is in one line unless line feeds stand for themselves in it. -/
theorem feed_mem_literal_iff :
    '\n' ∈ (literal keepNewlines text).toList ↔ keepNewlines = true ∧ '\n' ∈ text.toList := by
  have hplain : Plain keepNewlines '\n' ↔ keepNewlines = true := by simp [Plain]
  rw [mem_literal_iff (by simp), hplain, and_comm]

theorem return_not_mem_literal : '\r' ∉ (literal keepNewlines text).toList := by
  rw [mem_literal_iff (by simp)]
  rintro ⟨-, -, -, hreturn, -⟩
  exact hreturn rfl

/-! ## The end of a literal -/

/-- What stands in front of the first double quote that no backslash escapes, and what stands behind
it. -/
def untilQuote? : List Char → Option (List Char × List Char)
  | [] => none
  | '"' :: rest => some ([], rest)
  | '\\' :: e :: rest => (untilQuote? rest).map fun cut => ('\\' :: e :: cut.1, cut.2)
  | c :: rest => (untilQuote? rest).map fun cut => (c :: cut.1, cut.2)

theorem untilQuote?_cons (hslash : c ≠ '\\') (hquote : c ≠ '"') (rest : List Char) :
    untilQuote? (c :: rest) = (untilQuote? rest).map fun cut => (c :: cut.1, cut.2) := by
  rw [untilQuote?]
  · exact hquote
  · intro e rest' hc
    exact absurd hc hslash

theorem untilQuote?_escapeChar_append (keepNewlines : Bool) (c : Char) (rest : List Char) :
    untilQuote? (escapeChar keepNewlines c ++ rest) =
      (untilQuote? rest).map fun cut => (escapeChar keepNewlines c ++ cut.1, cut.2) := by
  by_cases hplain : Plain keepNewlines c
  · rw [escapeChar_of_plain hplain]
    exact untilQuote?_cons hplain.1 hplain.2.1 rest
  · obtain ⟨e, -, hescape⟩ := exists_escapeChar_of_not_plain hplain
    rw [hescape]
    rfl

/-- No double quote of an escaped text ends it, and no backslash at its end escapes what follows. -/
theorem untilQuote?_escape_append (keepNewlines : Bool) (s rest : List Char) :
    untilQuote? (escape keepNewlines s ++ rest) =
      (untilQuote? rest).map fun cut => (escape keepNewlines s ++ cut.1, cut.2) := by
  induction s with
  | nil =>
    exact Option.map_id'.symm
  | cons c s ih =>
    rw [escape_cons, List.append_assoc, untilQuote?_escapeChar_append, ih, Option.map_map]
    simp only [List.append_assoc, Function.comp_def]

theorem untilQuote?_escape_quote (keepNewlines : Bool) (s rest : List Char) :
    untilQuote? (escape keepNewlines s ++ '"' :: rest) = some (escape keepNewlines s, rest) := by
  rw [untilQuote?_escape_append, untilQuote?, Option.map_some, List.append_nil]

theorem untilQuote?_escape (keepNewlines : Bool) (s : List Char) :
    untilQuote? (escape keepNewlines s) = none := by
  have happend := untilQuote?_escape_append keepNewlines s []
  rwa [List.append_nil, untilQuote?, Option.map_none] at happend

/-- A literal stands between double quotes.  No double quote inside is without a backslash of its
own, so the literal ends where it is meant to, whatever stands behind it.  Undoing the escapes gives
the text, so no other text is written as this literal, with line feeds kept or not.  No literal
holds a carriage return, and only one that keeps line feeds holds any. -/
theorem literal_unambiguous (keepNewlines : Bool) (s : String) :
    ∃ inside, (literal keepNewlines s).toList = '"' :: inside ++ ['"'] ∧
      untilQuote? inside = none ∧
      (∀ rest, untilQuote? (inside ++ '"' :: rest) = some (inside, rest)) ∧
      unescape? inside = some s.toList ∧
      (∀ other s', literal other s' = literal keepNewlines s → s' = s) ∧
      '\r' ∉ (literal keepNewlines s).toList ∧
      (keepNewlines = false → '\n' ∉ (literal keepNewlines s).toList) := by
  refine ⟨escape keepNewlines s.toList, String.toList_ofList,
    untilQuote?_escape keepNewlines s.toList,
    fun rest => untilQuote?_escape_quote keepNewlines s.toList rest,
    unescape?_escape keepNewlines s.toList, fun other s' hsame => ?_, return_not_mem_literal,
    fun hkeep hfeed => ?_⟩
  · have hother := isLiteral_literal other s'
    rw [hsame] at hother
    exact hother.unique (isLiteral_literal keepNewlines s)
  · rw [(feed_mem_literal_iff.1 hfeed).1] at hkeep
    cases hkeep

end Dxb.Quoted
