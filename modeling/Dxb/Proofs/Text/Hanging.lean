import Mathlib.Logic.Function.Iterate
import Dxb.Proofs.Text.Indentation

/-!
# Pieces of an indented text

Indentation goes through a text character by character: it drops the carriage returns of line
endings, and puts a margin in front of the first character of every line that has one
(`indent_eq`).  So a piece of the text that has no layout at its ends stands in the indented text
with a margin in each of its lines but the first (`Stands.indent`), behind the same solid text as
before.  Such a piece stays as it is exactly if it is in one line (`iterate_hang_eq_iff`).
-/

namespace Dxb.Lines

/-! ## Character by character -/

def margin : List Char := [' ', ' ', ' ', ' ']

/-- Puts a margin in front of every line that is not empty, where `start` says whether the text
begins a line. -/
def hangFrom (start : Bool) : List Char → List Char
  | [] => []
  | c :: rest =>
    (if start = true ∧ c ≠ '\n' then margin else []) ++ c :: hangFrom (c == '\n') rest

/-- A piece of a line and the lines behind it, with a margin in front of the latter. -/
def hang (text : List Char) : List Char := hangFrom false text

/-- Whether a line begins behind a text. -/
def startsLine (start : Bool) (text : List Char) : Bool := text.foldl (fun _ c => c == '\n') start

/-- Drops the carriage returns that belong to line endings. -/
def dropReturns : List Char → List Char
  | [] => []
  | c :: rest =>
    if c = '\r' ∧ rest.head? = some '\n' then dropReturns rest else c :: dropReturns rest

variable {text : List Char}

theorem hangFrom_append (start : Bool) (a b : List Char) :
    hangFrom start (a ++ b) = hangFrom start a ++ hangFrom (startsLine start a) b := by
  induction a generalizing start with
  | nil => rfl
  | cons c a ih =>
    rw [List.cons_append, hangFrom, hangFrom, ih]
    simp only [List.append_assoc, List.cons_append]
    rfl

theorem hangFrom_eq_hang (start : Bool) {c : Char} (hc : c ≠ '\n') (rest : List Char) :
    hangFrom start (c :: rest) = (if start then margin else []) ++ hang (c :: rest) := by
  cases start <;> simp [hang, hangFrom, hc]

theorem hangFrom_feed (start : Bool) (rest : List Char) :
    hangFrom start ('\n' :: rest) = '\n' :: hangFrom true rest := by
  cases start <;> rfl

theorem hang_eq_self (h : '\n' ∉ text) : hang text = text := by
  unfold hang
  induction text with
  | nil => rfl
  | cons c text ih =>
    obtain ⟨hc, htext⟩ := List.ne_and_not_mem_of_not_mem_cons h
    have hfeed : (c == '\n') = false := beq_false_of_ne (Ne.symm hc)
    rw [hangFrom, hfeed, ih htext]
    rfl

/-- A line that begins a text is indented. -/
theorem hangFrom_line {line : List Char} (h : '\n' ∉ line) :
    hangFrom true line = indentLine line := by
  cases line with
  | nil => rfl
  | cons c line =>
    have hc : c ≠ '\n' := fun hc => h (List.mem_cons.2 (.inl hc.symm))
    rw [hangFrom_eq_hang true hc, hang_eq_self h]
    rfl

theorem solid_hangFrom (start : Bool) (text : List Char) :
    solid (hangFrom start text) = solid text := by
  induction text generalizing start with
  | nil => rfl
  | cons c text ih =>
    have hmargin : solid (if start = true ∧ c ≠ '\n' then margin else []) = [] := by
      split <;> rfl
    rw [hangFrom, solid_append, hmargin, solid_cons, solid_cons c text, ih]
    rfl

theorem mem_hangFrom_iff (start : Bool) {c : Char} (hc : c ≠ ' ') :
    c ∈ hangFrom start text ↔ c ∈ text := by
  induction text generalizing start with
  | nil => rfl
  | cons d text ih =>
    have hmargin : c ∉ if start = true ∧ d ≠ '\n' then margin else [] := by
      split <;> simp [margin, hc]
    rw [hangFrom, List.mem_append, or_iff_right hmargin, List.mem_cons, List.mem_cons, ih]

/-! ## Carriage returns -/

theorem dropReturns_append (a : List Char) {b : List Char} (h : b.head? ≠ some '\n') :
    dropReturns (a ++ b) = dropReturns a ++ dropReturns b := by
  induction a with
  | nil => rfl
  | cons c a ih =>
    have hhead : (a ++ b).head? = some '\n' ↔ a.head? = some '\n' := by
      cases a with
      | nil => simp [h]
      | cons d a => rfl
    rw [List.cons_append, dropReturns, dropReturns, ih]
    simp only [hhead]
    split <;> rfl

theorem dropReturns_append_of_not_mem {a : List Char} (h : '\r' ∉ a) (b : List Char) :
    dropReturns (a ++ b) = a ++ dropReturns b := by
  induction a with
  | nil => rfl
  | cons c a ih =>
    obtain ⟨hc, ha⟩ := List.ne_and_not_mem_of_not_mem_cons h
    rw [List.cons_append, dropReturns, if_neg fun hboth => hc hboth.1.symm, ih ha]
    rfl

theorem dropReturns_eq_self (h : '\n' ∉ text) : dropReturns text = text := by
  induction text with
  | nil => rfl
  | cons c text ih =>
    obtain ⟨-, htext⟩ := List.ne_and_not_mem_of_not_mem_cons h
    have hhead : text.head? ≠ some '\n' := fun hhead => htext (List.mem_of_mem_head? hhead)
    rw [dropReturns, if_neg fun hboth => hhead hboth.2, ih htext]

theorem feed_not_mem_dropReturn {line : List Char} (h : '\n' ∉ line) : '\n' ∉ dropReturn line := by
  unfold dropReturn
  split
  · exact List.not_mem_of_not_mem_cons h
  · exact h

/-- One line and its ending, the line given backwards. -/
theorem dropReturns_line {line : List Char} (h : '\n' ∉ line) (text : List Char) :
    dropReturns (line.reverse ++ '\n' :: text) =
      (dropReturn line).reverse ++ '\n' :: dropReturns text := by
  have hfeed : dropReturns ('\n' :: text) = '\n' :: dropReturns text := if_neg (by simp)
  cases line with
  | nil => exact hfeed
  | cons c line =>
    obtain ⟨hc, hline⟩ := List.ne_and_not_mem_of_not_mem_cons h
    have hhead : (c :: '\n' :: text).head? ≠ some '\n' :=
      fun hhead => hc (Option.some.inj hhead).symm
    have hreverse : '\n' ∉ line.reverse := fun hmem => hline (List.mem_reverse.1 hmem)
    rw [List.reverse_cons, List.append_assoc, List.singleton_append, dropReturns_append _ hhead,
      dropReturns_eq_self hreverse, dropReturns, hfeed]
    by_cases hreturn : c = '\r'
    · rw [if_pos ⟨hreturn, rfl⟩, hreturn]
      rfl
    · have hkept : dropReturn (c :: line) = c :: line := by
        unfold dropReturn
        split
        · rename_i heq
          exact absurd (List.cons.inj heq).1 hreturn
        · rfl
      rw [if_neg fun hboth => hreturn hboth.1, hkept, List.reverse_cons, List.append_assoc]
      rfl

theorem solid_dropReturns (text : List Char) : solid (dropReturns text) = solid text := by
  induction text with
  | nil => rfl
  | cons c text ih =>
    rw [dropReturns]
    split
    · rename_i hboth
      have hlayout : isLayout c = true := by
        rw [hboth.1]
        rfl
      rw [ih, solid_cons_layout hlayout]
    · rw [solid_cons, solid_cons c text, ih]

/-! ## Indentation -/

theorem linesFrom_ne_nil (line : List Char) (h : text ≠ []) : linesFrom line text ≠ [] := by
  induction text generalizing line with
  | nil => exact absurd rfl h
  | cons c text ih =>
    unfold linesFrom
    split
    · exact List.cons_ne_nil _ _
    · cases text with
      | nil => simp [linesFrom]
      | cons d text => exact ih _ (List.cons_ne_nil _ _)

/-- The lines from the current one on, of which `line` was read so far, backwards. -/
theorem intercalate_linesFrom {line : List Char} (hline : '\n' ∉ line)
    (hlast : (line.reverse ++ text).getLast? ≠ some '\n') :
    List.intercalate ['\n'] ((linesFrom line text).map indentLine) =
      hangFrom true (dropReturns (line.reverse ++ text)) := by
  induction text generalizing line with
  | nil =>
    have hreverse : '\n' ∉ line.reverse := fun hmem => hline (List.mem_reverse.1 hmem)
    rw [List.append_nil, dropReturns_eq_self hreverse, hangFrom_line hreverse, linesFrom]
    split
    · rename_i hempty
      rw [List.isEmpty_iff.1 hempty]
      rfl
    · exact List.intercalate_singleton
  | cons c text ih =>
    rw [linesFrom]
    split
    · rename_i hc
      subst hc
      have hkept : '\n' ∉ (dropReturn line).reverse := by
        rw [List.mem_reverse]
        exact feed_not_mem_dropReturn hline
      rw [List.getLast?_append, List.getLast?_cons, Option.some_or] at hlast
      have htext : text ≠ [] := by
        rintro rfl
        exact hlast rfl
      have hrest : (([] : List Char).reverse ++ text).getLast? ≠ some '\n' := by
        intro hrest
        rw [List.reverse_nil, List.nil_append] at hrest
        exact hlast (by rw [hrest, Option.getD_some])
      rw [dropReturns_line hline, hangFrom_append, hangFrom_line hkept, hangFrom_feed,
        List.map_cons]
      have hnext : List.intercalate ['\n'] ((linesFrom [] text).map indentLine) =
          hangFrom true (dropReturns text) := ih List.not_mem_nil hrest
      rw [← hnext]
      cases hlines : linesFrom [] text with
      | nil => exact absurd hlines (linesFrom_ne_nil [] htext)
      | cons next lines =>
        rw [List.map_cons, List.intercalate_cons_cons, List.append_assoc]
        rfl
    · rename_i hc
      have hcons : '\n' ∉ c :: line := by
        rw [List.mem_cons]
        exact not_or.2 ⟨Ne.symm hc, hline⟩
      have happend : (c :: line).reverse ++ text = line.reverse ++ c :: text := by simp
      rw [ih hcons (by rwa [happend]), happend]

/-- Indentation of a text that does not end in a line feed, character by character. -/
theorem indent_eq (h : text.getLast? ≠ some '\n') :
    indent text = hangFrom true (dropReturns text) :=
  intercalate_linesFrom List.not_mem_nil h

/-! ## Pieces -/

/-- A text without layout at its ends. -/
structure Framed (text : List Char) : Prop where
  first : ∃ c rest, text = c :: rest ∧ isLayout c = false
  last : ∃ rest c, text = rest ++ [c] ∧ isLayout c = false

/-- In a text stands a piece, behind a beginning with the given solid text. -/
def Stands (text piece before : List Char) : Prop :=
  ∃ a b, text = a ++ piece ++ b ∧ solid a = before

variable {piece before : List Char}

theorem Stands.refl (text : List Char) : Stands text text [] :=
  ⟨[], [], by rw [List.nil_append, List.append_nil], rfl⟩

theorem Stands.trans {inner behind : List Char} (h : Stands text piece before)
    (hinner : Stands piece inner behind) : Stands text inner (before ++ behind) := by
  obtain ⟨a, b, rfl, rfl⟩ := h
  obtain ⟨c, d, rfl, rfl⟩ := hinner
  exact ⟨a ++ c, d ++ b, by simp only [List.append_assoc], solid_append a c⟩

theorem ne_feed_of_solid {c : Char} (h : isLayout c = false) : c ≠ '\n' := by
  rintro rfl
  cases h

/-- The margins stand within the piece. -/
theorem Framed.hang (h : Framed text) : Framed (hang text) where
  first := by
    obtain ⟨c, rest, rfl, hc⟩ := h.first
    exact ⟨c, hangFrom (c == '\n') rest, rfl, hc⟩
  last := by
    obtain ⟨rest, c, rfl, hc⟩ := h.last
    refine ⟨Lines.hang rest ++ if startsLine false rest then margin else [], c, ?_, hc⟩
    unfold Lines.hang
    rw [hangFrom_append, hangFrom_eq_hang _ (ne_feed_of_solid hc), List.append_assoc]
    rfl

/-- What is all layout is empty where something else should begin. -/
theorem eq_nil_of_solid_of_append_eq_cons {m rest rest' : List Char} {c : Char}
    (hm : solid m = []) (hc : isLayout c = false) (h : m ++ rest = c :: rest') : m = [] := by
  cases m with
  | nil => rfl
  | cons d m =>
    have hd : d = c := (List.cons.inj h).1
    have hlayout := List.filter_eq_nil_iff.1 hm d List.mem_cons_self
    rw [hd, hc] at hlayout
    exact absurd rfl hlayout

theorem eq_nil_of_solid_of_append_eq_concat {m rest rest' : List Char} {c : Char}
    (hm : solid m = []) (hc : isLayout c = false) (h : rest ++ m = rest' ++ [c]) : m = [] := by
  have hreverse : solid m.reverse = [] := by rw [solid_reverse, hm, List.reverse_nil]
  have happend : m.reverse ++ rest.reverse = c :: rest'.reverse := by
    rw [← List.reverse_append, h, List.reverse_append]
    rfl
  exact List.reverse_eq_nil_iff.1 (eq_nil_of_solid_of_append_eq_cons hreverse hc happend)

theorem solid_eq_nil_of_append {a m : List Char} (h : solid (a ++ m) = solid a) : solid m = [] :=
  List.append_right_eq_self.1 ((solid_append a m).symm.trans h)

/-- Two pieces at one place in a text are the same if they have the same solid text. -/
theorem Stands.unique {other : List Char} (h : Stands text piece before)
    (hother : Stands text other before) (hframed : Framed piece) (hframed' : Framed other)
    (hsolid : solid piece = solid other) : piece = other := by
  obtain ⟨a, b, rfl, ha⟩ := h
  obtain ⟨a', b', htext, ha'⟩ := hother
  have hbegin : a = a' := by
    obtain ⟨c, rest, hpiece, hc⟩ := hframed.first
    obtain ⟨c', rest', hother, hc'⟩ := hframed'.first
    rw [List.append_assoc, List.append_assoc] at htext
    rcases List.append_eq_append_iff.1 htext with ⟨m, rfl, hm⟩ | ⟨m, rfl, hm⟩
    · rw [hpiece, List.cons_append] at hm
      have hnil := eq_nil_of_solid_of_append_eq_cons
        (solid_eq_nil_of_append (ha'.trans ha.symm)) hc hm.symm
      rw [hnil, List.append_nil]
    · rw [hother, List.cons_append] at hm
      have hnil := eq_nil_of_solid_of_append_eq_cons
        (solid_eq_nil_of_append (ha.trans ha'.symm)) hc' hm.symm
      rw [hnil, List.append_nil]
  subst hbegin
  rw [List.append_assoc, List.append_assoc, List.append_cancel_left_eq] at htext
  obtain ⟨rest, c, hpiece, hc⟩ := hframed.last
  obtain ⟨rest', c', hother, hc'⟩ := hframed'.last
  rcases List.append_eq_append_iff.1 htext with ⟨m, hm, -⟩ | ⟨m, hm, -⟩
  · have hnil := eq_nil_of_solid_of_append_eq_concat
      (solid_eq_nil_of_append (hm ▸ hsolid.symm)) hc' (hm.symm.trans hother)
    rw [hm, hnil, List.append_nil]
  · have hnil := eq_nil_of_solid_of_append_eq_concat
      (solid_eq_nil_of_append (hm ▸ hsolid)) hc (hm.symm.trans hpiece)
    rw [hm, hnil, List.append_nil]

theorem getLast?_trimEnd (text : List Char) : (trimEnd text).getLast? ≠ some '\n' := by
  intro h
  have hhead := List.head?_dropWhile_not (· == '\n') text.reverse
  rw [trimEnd, List.getLast?_reverse] at h
  rw [h] at hhead
  cases hhead

/-- The line feeds at the end of a text stand behind a piece without layout at its ends. -/
theorem Framed.trimEnd_append (h : Framed piece) (a b : List Char) :
    trimEnd (a ++ piece ++ b) = a ++ piece ++ trimEnd b := by
  obtain ⟨rest, c, rfl, hc⟩ := h.last
  have hkept : (a ++ (rest ++ [c])).reverse.dropWhile (· == '\n') =
      (a ++ (rest ++ [c])).reverse := by
    rw [← List.append_assoc, List.reverse_concat, List.dropWhile_cons, if_neg]
    exact fun hfeed => ne_feed_of_solid hc (beq_iff_eq.1 hfeed)
  rw [trimEnd, List.reverse_append, List.dropWhile_append, hkept]
  split
  · rename_i hempty
    rw [trimEnd, List.isEmpty_iff.1 hempty, List.reverse_reverse]
    exact (List.append_nil _).symm
  · rw [List.reverse_append, List.reverse_reverse, trimEnd]

/-- What becomes of a piece when the text around it is indented. -/
theorem Stands.indent (h : Stands text piece before) (hframed : Framed piece)
    (hreturn : '\r' ∉ piece) : Stands (indent (trimEnd text)) (hang piece) before := by
  have hlast := getLast?_trimEnd text
  obtain ⟨a, b, rfl, rfl⟩ := h
  obtain ⟨c, rest, hpiece, hc⟩ := hframed.first
  have hhead : (piece ++ trimEnd b).head? ≠ some '\n' := by
    rw [hpiece]
    exact fun hfeed => ne_feed_of_solid hc (Option.some.inj hfeed)
  have hmargin : ∀ start, hangFrom start piece = (if start then margin else []) ++ hang piece := by
    intro start
    rw [hpiece]
    exact hangFrom_eq_hang start (ne_feed_of_solid hc) rest
  let start := startsLine true (dropReturns a)
  refine ⟨hangFrom true (dropReturns a) ++ if start then margin else [],
    hangFrom (startsLine start piece) (dropReturns (trimEnd b)), ?_, ?_⟩
  · rw [indent_eq hlast, hframed.trimEnd_append, List.append_assoc, dropReturns_append a hhead,
      dropReturns_append_of_not_mem hreturn, hangFrom_append, hangFrom_append, hmargin]
    simp only [List.append_assoc, start]
  · have hlayout : solid (if start then margin else []) = [] := by
      split <;> rfl
    rw [solid_append, hlayout, List.append_nil, solid_hangFrom, solid_dropReturns]

/-! ## Repeated indentation -/

theorem length_le_hangFrom (start : Bool) (text : List Char) :
    text.length ≤ (hangFrom start text).length := by
  induction text generalizing start with
  | nil => exact Nat.le_refl 0
  | cons c text ih =>
    have hrest := ih (c == '\n')
    rw [hangFrom, List.length_append, List.length_cons, List.length_cons]
    omega

/-- There is a margin in front of the first line that is not empty. -/
theorem length_lt_hangFrom {c : Char} (hmem : c ∈ text) (hc : c ≠ '\n') :
    text.length < (hangFrom true text).length := by
  induction text with
  | nil => cases hmem
  | cons d text ih =>
    by_cases hd : d = '\n'
    · subst hd
      have hrest := ih ((List.mem_cons.1 hmem).resolve_left hc)
      exact Nat.succ_lt_succ hrest
    · have hrest := length_le_hangFrom false (d :: text)
      have hmargin : margin.length = 4 := rfl
      rw [hangFrom_eq_hang true hd, List.length_append, if_pos rfl, hmargin, hang]
      omega

theorem length_lt_hang (h : Framed text) (hfeed : '\n' ∈ text) :
    text.length < (hang text).length := by
  obtain ⟨rest, c, htext, hc⟩ := h.last
  obtain ⟨a, b, rfl⟩ := List.append_of_mem hfeed
  -- behind the line feed stands at least what ends the text
  have hmem : c ∈ b := by
    have hlast := congrArg List.getLast? htext
    rw [List.getLast?_append, List.getLast?_cons, Option.some_or, List.getLast?_concat] at hlast
    cases hb : b.getLast? with
    | none =>
      rw [hb] at hlast
      exact absurd (Option.some.inj hlast).symm (ne_feed_of_solid hc)
    | some d =>
      rw [hb] at hlast
      exact Option.some.inj hlast ▸ List.mem_of_getLast? hb
  have hfront := length_le_hangFrom false a
  have hbehind := length_lt_hangFrom hmem (ne_feed_of_solid hc)
  rw [hang, hangFrom_append, hangFrom_feed, List.length_append, List.length_append,
    List.length_cons, List.length_cons]
  omega

theorem Framed.iterate_hang (h : Framed text) (n : Nat) : Framed (Lines.hang^[n] text) :=
  Function.Iterate.rec Framed h (fun _ => Framed.hang) n

theorem solid_iterate_hang (text : List Char) (n : Nat) : solid (hang^[n] text) = solid text := by
  induction n with
  | zero => rfl
  | succ n ih => rw [Function.iterate_succ_apply', hang, solid_hangFrom, ih]

theorem mem_iterate_hang_iff {c : Char} (hc : c ≠ ' ') (n : Nat) :
    c ∈ hang^[n] text ↔ c ∈ text := by
  induction n with
  | zero => rfl
  | succ n ih => rw [Function.iterate_succ_apply', hang, mem_hangFrom_iff false hc, ih]

/-- A piece stays as it is exactly if it is in one line. -/
theorem iterate_hang_eq_iff (h : Framed text) (n : Nat) :
    hang^[n] text = text ↔ n = 0 ∨ '\n' ∉ text := by
  constructor
  · intro heq
    cases n with
    | zero => exact .inl rfl
    | succ n =>
      refine .inr fun hfeed => ?_
      have hgrows : ∀ k, text.length ≤ (hang^[k] text).length := by
        intro k
        induction k with
        | zero => exact Nat.le_refl _
        | succ k ih =>
          rw [Function.iterate_succ_apply']
          exact Nat.le_trans ih (length_le_hangFrom false _)
      have hlast := length_lt_hang (h.iterate_hang n)
        ((mem_iterate_hang_iff (by decide) n).2 hfeed)
      rw [← Function.iterate_succ_apply' hang, heq] at hlast
      exact absurd (hgrows n) (Nat.not_le_of_lt hlast)
  · rintro (rfl | hfeed)
    · rfl
    · exact Function.iterate_fixed (hang_eq_self hfeed) n

end Dxb.Lines
