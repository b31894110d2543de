import Mathlib.Algebra.Field.Rat
import Mathlib.Data.Nat.Cast.Field
import Mathlib.Data.Rat.Lemmas
import Mathlib.Tactic.FieldSimp
import Mathlib.Tactic.Ring
import Dxb.Proofs.Bytes.BigEndian
import Dxb.Proofs.Decimal.Places

/-!
# Reading numbers

A text of digits, of digits with decimal places, or of a fraction, with or without a sign, stands
for a rational number (`Ratio.ofText?`).  What is written for a rational number stands for just that
number (`Ratio.ofText?_written`), since places are only ever written where the denominator divides
that power of ten.  It is written unless it needs more places than there can be
(`Ratio.text?_eq_some_iff`).
-/

namespace Dxb

/-! ## Digits -/

namespace Digits

def digitOf (c : Char) : Nat := c.toNat - '0'.toNat

/-- The number that decimal digits spell. -/
def value (text : List Char) : Nat := ofDigits 10 (text.map digitOf)

/-- The number that a text spells, if it is some digits and nothing else. -/
def ofDecimal? (text : List Char) : Option Nat :=
  if text ≠ [] ∧ text.all Char.isDigit then some (value text) else none

theorem value_append (a b : List Char) : value (a ++ b) = value a * 10 ^ b.length + value b := by
  unfold value
  rw [List.map_append, ofDigits_append, List.length_map]

theorem value_zeros (k : Nat) (text : List Char) :
    value (List.replicate k '0' ++ text) = value text := by
  induction k with
  | zero => rfl
  | succ k ih =>
    rw [List.replicate_succ, List.cons_append, ← ih]
    rfl

theorem isDigit_digitChar : ∀ d < 10, (Nat.digitChar d).isDigit = true := by decide

theorem digitOf_digitChar : ∀ d < 10, digitOf (Nat.digitChar d) = d := by decide

/-- A number is written as the digits that spell it. -/
theorem toList_decimal (n : Nat) : (decimal n).toList ≠ [] ∧
    (∀ c ∈ (decimal n).toList, c.isDigit = true) ∧ value (decimal n).toList = n := by
  have hdigits := ofDigits_digits (Nat.le_add_left 2 8) n
  unfold decimal
  split
  · rename_i hnil
    rw [hnil] at hdigits
    rw [← hdigits]
    refine ⟨by decide, fun c hc => ?_, by decide⟩
    rw [List.mem_singleton.1 hc]
    rfl
  · rename_i hcons
    have hlt : ∀ d ∈ digits 10 n, d < 10 := fun d => lt_of_mem_digits (by decide)
    have hvalues : ((digits 10 n).map Nat.digitChar).map digitOf = digits 10 n := by
      rw [List.map_map]
      exact (List.map_congr_left fun d hd => digitOf_digitChar d (hlt d hd)).trans (List.map_id _)
    rw [String.toList_ofList]
    refine ⟨by simpa using hcons, ?_, ?_⟩
    · intro c hc
      obtain ⟨d, hd, rfl⟩ := List.mem_map.1 hc
      exact isDigit_digitChar d (hlt d hd)
    · rw [value, hvalues, hdigits]

theorem ofDecimal?_eq {text : List Char} (hne : text ≠ []) (h : ∀ c ∈ text, c.isDigit = true) :
    ofDecimal? text = some (value text) := if_pos ⟨hne, List.all_eq_true.2 h⟩

theorem isDigit_of_ofDecimal? {text : List Char} {n : Nat} (h : ofDecimal? text = some n) :
    ∀ c ∈ text, c.isDigit = true := by
  unfold ofDecimal? at h
  split at h
  · rename_i hall
    exact List.all_eq_true.1 hall.2
  · cases h

end Digits

namespace Ratio

open Digits

/-! ## Reading -/

/-- The number that begins with a whole part, from what stands behind that. -/
def ofRest? (whole : Nat) : List Char → Option Rat
  | [] => some whole
  | '.' :: places => (ofDecimal? places).map fun p : Nat => whole + p / (10 : Rat) ^ places.length
  | '/' :: below => (ofDecimal? below).map fun b : Nat => whole / (b : Rat)
  | _ => none

/-- Reads `12`, `0.25` or `10/3`. -/
def ofUnsigned? (text : List Char) : Option Rat :=
  (ofDecimal? (text.takeWhile Char.isDigit)).bind fun whole =>
    ofRest? whole (text.dropWhile Char.isDigit)

/-- Reads a number with or without a minus sign. -/
def ofText? : List Char → Option Rat
  | '-' :: text => (ofUnsigned? text).map (- ·)
  | text => ofUnsigned? text

/-- Digits in front of something else are the whole part. -/
theorem ofUnsigned?_append {whole rest : List Char} (hne : whole ≠ [])
    (h : ∀ c ∈ whole, c.isDigit = true) (hrest : rest.head?.all (!·.isDigit) = true) :
    ofUnsigned? (whole ++ rest) = ofRest? (value whole) rest := by
  have hparts : rest.takeWhile Char.isDigit = [] ∧ rest.dropWhile Char.isDigit = rest := by
    cases rest with
    | nil => exact ⟨rfl, rfl⟩
    | cons c rest =>
      have hc : ¬ c.isDigit = true := by simpa using hrest
      exact ⟨List.takeWhile_cons_of_neg hc, List.dropWhile_cons_of_neg hc⟩
  unfold ofUnsigned?
  rw [List.takeWhile_append_of_pos h, List.dropWhile_append_of_pos h, hparts.1, hparts.2,
    List.append_nil, ofDecimal?_eq hne h, Option.bind_some]

/-! ## Decimal places -/

/-- Decimal places stand behind a point, and digits in front of it. -/
theorem exists_fixed_eq (n : Nat) {places : Nat} (h : places ≠ 0) :
    ∃ whole behind, (fixed n places).toList = whole ++ '.' :: behind ∧
      (whole ≠ [] ∧ ∀ c ∈ whole, c.isDigit = true) ∧
      (behind ≠ [] ∧ ∀ c ∈ behind, c.isDigit = true) ∧
      behind.length = places ∧ value whole * 10 ^ places + value behind = n := by
  obtain ⟨-, hdigit, hvalue⟩ := toList_decimal n
  unfold fixed
  dsimp only
  rw [if_neg h, String.toList_ofList]
  generalize hpadded : List.replicate (places + 1 - (decimal n).toList.length) '0' ++
    (decimal n).toList = padded
  have hlength : places + 1 ≤ padded.length := by
    rw [← hpadded, List.length_append, List.length_replicate]
    omega
  have hdigits : ∀ c ∈ padded, c.isDigit = true := by
    intro c hc
    rw [← hpadded] at hc
    rcases List.mem_append.1 hc with hzeros | hc
    · rw [List.eq_of_mem_replicate hzeros]
      rfl
    · exact hdigit c hc
  have hspelled : value padded = n := by rw [← hpadded, value_zeros, hvalue]
  have hbehind : (padded.drop (padded.length - places)).length = places := by
    rw [List.length_drop]
    omega
  refine ⟨_, _, rfl, ⟨fun hnil => ?_, fun c hc => hdigits c (List.mem_of_mem_take hc)⟩,
    ⟨fun hnil => ?_, fun c hc => hdigits c (List.mem_of_mem_drop hc)⟩, hbehind, ?_⟩
  · have hlen := congrArg List.length hnil
    rw [List.length_take, List.length_nil] at hlen
    omega
  · rw [hnil] at hbehind
    exact h hbehind.symm
  · conv_rhs => rw [← hspelled, ← List.take_append_drop (padded.length - places) padded]
    rw [value_append, hbehind]

theorem fixed_zero (n : Nat) : fixed n 0 = Digits.decimal n := by simp [fixed]

/-- A number with decimal places is read as what it was written for. -/
theorem ofUnsigned?_fixed (n places : Nat) :
    ofUnsigned? (fixed n places).toList = some ((n : Rat) / 10 ^ places) := by
  by_cases h : places = 0
  · obtain ⟨hne, hdigit, hvalue⟩ := toList_decimal n
    rw [h, fixed_zero, ← List.append_nil (Digits.decimal n).toList,
      ofUnsigned?_append hne hdigit rfl, hvalue]
    simp [ofRest?]
  · obtain ⟨whole, behind, htext, ⟨hne, hwhole⟩, ⟨hne', hbehind⟩, hlength, hsum⟩ :=
      exists_fixed_eq n h
    rw [htext, ofUnsigned?_append hne hwhole rfl, ofRest?, ofDecimal?_eq hne' hbehind,
      Option.map_some, hlength, ← hsum]
    push_cast
    congr 1
    field_simp

/-! ## Round trip -/

theorem ofUnsigned?_fraction (n d : Nat) :
    ofUnsigned? (Digits.decimal n ++ "/" ++ Digits.decimal d).toList = some ((n : Rat) / d) := by
  obtain ⟨hne, hdigit, hvalue⟩ := toList_decimal n
  obtain ⟨hne', hdigit', hvalue'⟩ := toList_decimal d
  have hslash : "/".toList = ['/'] := by decide
  rw [String.toList_append, String.toList_append, hslash, List.append_assoc,
    ofUnsigned?_append hne hdigit rfl, hvalue, List.singleton_append, ofRest?,
    ofDecimal?_eq hne' hdigit', hvalue', Option.map_some]

/-- A number begins with a digit, so a minus sign is told apart from it. -/
theorem ofText?_of_ofUnsigned? {text : List Char} {x : Rat} (h : ofUnsigned? text = some x) :
    ofText? text = some x ∧ ofText? ('-' :: text) = some (-x) := by
  refine ⟨?_, ?_⟩
  · unfold ofText?
    split
    · cases h
    · exact h
  · show (ofUnsigned? text).map _ = _
    rw [h, Option.map_some]

/-- The text of a number without its sign. -/
def magnitude (r : Rat) : String :=
  match places? r.den with
  | some k => fixed (r.num.natAbs * 10 ^ k / r.den) k
  | none => Digits.decimal r.num.natAbs ++ "/" ++ Digits.decimal r.den

/-- The text of a number, however many places it has. -/
def written (r : Rat) : String := (if r.num < 0 then "-" else "") ++ magnitude r

theorem ofUnsigned?_magnitude (r : Rat) :
    ofUnsigned? (magnitude r).toList = some ((r.num.natAbs : Rat) / r.den) := by
  unfold magnitude
  cases hplaces : places? r.den with
  | some k =>
    have hdvd : r.den ∣ r.num.natAbs * 10 ^ k :=
      Nat.dvd_mul_left_of_dvd ((places?_eq_some_iff r.den_nz).1 hplaces).1 _
    have hden : (r.den : Rat) ≠ 0 := Nat.cast_ne_zero.2 r.den_nz
    dsimp only
    rw [ofUnsigned?_fixed, Nat.cast_div hdvd hden]
    push_cast
    congr 1
    field_simp
  | none => exact ofUnsigned?_fraction _ _

/-- The text of a rational number stands for that number. -/
theorem ofText?_written (r : Rat) : ofText? (written r).toList = some r := by
  obtain ⟨hpositive, hnegative⟩ := ofText?_of_ofUnsigned? (ofUnsigned?_magnitude r)
  have habs : ((r.num.natAbs : Int) : Rat) / r.den = if r.num < 0 then -r else r := by
    split
    · rename_i hneg
      rw [Int.ofNat_natAbs_of_nonpos (Int.le_of_lt hneg), Int.cast_neg, neg_div, Rat.num_div_den]
    · rename_i hpos
      rw [Int.natAbs_of_nonneg (Int.not_lt.1 hpos), Rat.num_div_den]
  rw [Int.cast_natCast] at habs
  rw [written, String.toList_append]
  split
  · rename_i hneg
    have hminus : "-".toList = ['-'] := by decide
    rw [hminus, List.singleton_append, hnegative, habs, if_pos hneg, neg_neg]
  · rename_i hpos
    have hnone : "".toList = [] := by decide
    rw [hnone, List.nil_append, hpositive, habs, if_neg hpos]

/-! ## Numbers that can be written -/

/-- The most decimal places that a text can have. -/
def maxPlaces : Nat := maxWidth - 1

/-- A number without a finite expansion, or with one of no more places than there can be. -/
def Writable (r : Rat) : Prop := (∃ k, r.den ∣ 10 ^ k) → r.den ∣ 10 ^ maxPlaces

theorem not_writable_iff {r : Rat} :
    ¬ Writable r ↔ ∃ k, places? r.den = some k ∧ maxPlaces < k := by
  rw [exists_lt_places?_iff r.den_nz, Writable, Classical.not_imp]

/-- A number has a text if and only if it can be written. -/
theorem text?_eq_some_iff {r : Rat} {t : String} :
    text? r = some t ↔ Writable r ∧ t = written r := by
  have hfits : ∀ {k}, places? r.den = some k → (Writable r ↔ ¬ maxWidth < k + 1) := by
    intro k hplaces
    have hwide : maxPlaces < k ↔ maxWidth < k + 1 := by
      unfold maxPlaces maxWidth
      omega
    rw [← not_iff_not, not_writable_iff, not_not, ← hwide]
    constructor
    · rintro ⟨j, hj, hlt⟩
      rw [hplaces] at hj
      exact Option.some.inj hj ▸ hlt
    · exact fun hlt => ⟨k, hplaces, hlt⟩
  unfold text? written magnitude
  cases hplaces : places? r.den with
  | some k =>
    rw [hfits hplaces]
    dsimp only
    split
    · rename_i hwide
      exact ⟨nofun, fun h => absurd hwide h.1⟩
    · rename_i hnarrow
      rw [Option.some_inj, eq_comm]
      exact ⟨fun h => ⟨hnarrow, h⟩, And.right⟩
  | none =>
    have hwritable : Writable r := fun hsome =>
      absurd hsome ((places?_eq_none_iff r.den_nz).1 hplaces)
    dsimp only
    rw [Option.some_inj, eq_comm, ← String.append_assoc, ← String.append_assoc]
    exact ⟨fun h => ⟨hwritable, h⟩, And.right⟩

theorem text?_eq_none_iff {r : Rat} :
    text? r = none ↔ (∃ k, r.den ∣ 10 ^ k) ∧ ¬ r.den ∣ 10 ^ maxPlaces := by
  rw [← Classical.not_imp, ← Writable]
  constructor
  · intro hnone hwritable
    rw [text?_eq_some_iff.2 ⟨hwritable, rfl⟩] at hnone
    cases hnone
  · intro h
    cases htext : text? r with
    | none => rfl
    | some t => exact absurd (text?_eq_some_iff.1 htext).1 h

/-! ## Marks -/

/-- Whether a character may stand in the text of a number. -/
def isMark (c : Char) : Bool := c.isDigit || c == '-' || c == '.' || c == '/'

theorem isMark_of_isDigit {c : Char} (h : c.isDigit = true) : isMark c = true := by
  unfold isMark
  rw [h]
  rfl

theorem isMark_of_mem_decimal {n : Nat} {c : Char} (h : c ∈ (Digits.decimal n).toList) :
    isMark c = true := isMark_of_isDigit ((toList_decimal n).2.1 c h)

theorem isMark_of_mem_fixed {n places : Nat} {c : Char} (h : c ∈ (fixed n places).toList) :
    isMark c = true := by
  by_cases hplaces : places = 0
  · rw [hplaces, fixed_zero] at h
    exact isMark_of_mem_decimal h
  · obtain ⟨whole, behind, htext, ⟨-, hwhole⟩, ⟨-, hbehind⟩, -⟩ := exists_fixed_eq n hplaces
    rw [htext] at h
    rcases List.mem_append.1 h with h | h
    · exact isMark_of_isDigit (hwhole c h)
    · rcases List.mem_cons.1 h with rfl | h
      · rfl
      · exact isMark_of_isDigit (hbehind c h)

theorem isMark_of_mem_written {r : Rat} {c : Char} (h : c ∈ (written r).toList) :
    isMark c = true := by
  rw [written, String.toList_append] at h
  rcases List.mem_append.1 h with h | h
  · split at h
    · rw [List.mem_singleton.1 h]
      rfl
    · cases h
  · unfold magnitude at h
    split at h
    · exact isMark_of_mem_fixed h
    · rw [String.toList_append, String.toList_append, List.mem_append, List.mem_append] at h
      rcases h with (h | h) | h
      · exact isMark_of_mem_decimal h
      · rw [List.mem_singleton.1 h]
        rfl
      · exact isMark_of_mem_decimal h

end Ratio

end Dxb
