/-!
# Quoted text

Text in double quotes, with a backslash in front of what cannot stand for itself.  With
`keepNewlines` a line feed stands for itself.

    unescape? (escape k s) = some s                      (unescape?_escape)
-/

namespace Dxb.Quoted

/-- How one character is written between quotes. -/
def escapeChar (keepNewlines : Bool) (c : Char) : List Char :=
  if c = '\\' then ['\\', '\\']
  else if c = '"' then ['\\', '"']
  else if c = '\n' ∧ keepNewlines = false then ['\\', 'n']
  else if c = '\r' then ['\\', 'r']
  else if c = '\t' then ['\\', 't']
  else [c]

def escape (keepNewlines : Bool) (s : List Char) : List Char :=
  s.flatMap (escapeChar keepNewlines)

/-- Undoes `escape`; refuses an unknown escape and a quote that stands alone. -/
def unescape? : List Char → Option (List Char)
  | [] => some []
  | '\\' :: e :: rest =>
    if e = '\\' ∨ e = '"' then (unescape? rest).map (e :: ·)
    else if e = 'n' then (unescape? rest).map ('\n' :: ·)
    else if e = 'r' then (unescape? rest).map ('\r' :: ·)
    else if e = 't' then (unescape? rest).map ('\t' :: ·)
    else none
  | c :: rest => if c = '\\' ∨ c = '"' then none else (unescape? rest).map (c :: ·)

/-- A text as a literal. -/
def literal (keepNewlines : Bool) (s : String) : String :=
  String.ofList ('"' :: escape keepNewlines s.toList ++ ['"'])

/-- A character that stands for itself between quotes. -/
def Plain (keepNewlines : Bool) (c : Char) : Prop :=
  c ≠ '\\' ∧ c ≠ '"' ∧ c ≠ '\r' ∧ c ≠ '\t' ∧ (c = '\n' → keepNewlines = true)

/-! ## Lemmas -/

variable {keepNewlines : Bool} {c : Char}

theorem escapeChar_of_plain (h : Plain keepNewlines c) : escapeChar keepNewlines c = [c] := by
  obtain ⟨hslash, hquote, hreturn, htab, hfeed⟩ := h
  have hkept : ¬ (c = '\n' ∧ keepNewlines = false) := by
    rintro ⟨hc, hkeep⟩
    rw [hfeed hc] at hkeep
    cases hkeep
  rw [escapeChar, if_neg hslash, if_neg hquote, if_neg hkept, if_neg hreturn, if_neg htab]

/-- Every other character is written as a backslash and one of five. -/
theorem exists_escapeChar_of_not_plain (h : ¬ Plain keepNewlines c) :
    ∃ e ∈ ['\\', '"', 'n', 'r', 't'], escapeChar keepNewlines c = ['\\', e] := by
  unfold escapeChar
  split
  · exact ⟨'\\', by simp, rfl⟩
  split
  · exact ⟨'"', by simp, rfl⟩
  split
  · exact ⟨'n', by simp, rfl⟩
  split
  · exact ⟨'r', by simp, rfl⟩
  split
  · exact ⟨'t', by simp, rfl⟩
  · rename_i hslash hquote hfeed hreturn htab
    exact absurd ⟨hslash, hquote, hreturn, htab, by simpa using hfeed⟩ h

theorem escape_cons (keepNewlines : Bool) (c : Char) (s : List Char) :
    escape keepNewlines (c :: s) = escapeChar keepNewlines c ++ escape keepNewlines s :=
  List.flatMap_cons

/-- A character that starts no escape and no end is read as itself. -/
theorem unescape?_cons (hslash : c ≠ '\\') (hquote : c ≠ '"') (rest : List Char) :
    unescape? (c :: rest) = (unescape? rest).map (c :: ·) := by
  rw [unescape?]
  · rw [if_neg (not_or.2 ⟨hslash, hquote⟩)]
  · intro e rest' hc
    exact absurd hc hslash

/-- Whatever a character is written as is read as the character. -/
theorem unescape?_escapeChar_append (keepNewlines : Bool) (c : Char) (rest : List Char) :
    unescape? (escapeChar keepNewlines c ++ rest) = (unescape? rest).map (c :: ·) := by
  unfold escapeChar
  split
  · rename_i hc; subst hc; rfl
  split
  · rename_i hc; subst hc; rfl
  split
  · rename_i hc; obtain ⟨rfl, -⟩ := hc; rfl
  split
  · rename_i hc; subst hc; rfl
  split
  · rename_i hc; subst hc; rfl
  · rename_i hslash hquote _ _ _
    exact unescape?_cons hslash hquote rest

theorem unescape?_escape (keepNewlines : Bool) (s : List Char) :
    unescape? (escape keepNewlines s) = some s := by
  induction s with
  | nil => rfl
  | cons c s ih => rw [escape_cons, unescape?_escapeChar_append, ih, Option.map_some]

end Dxb.Quoted
