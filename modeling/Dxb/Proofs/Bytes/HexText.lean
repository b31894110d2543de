import Dxb.Bytes.Hex
import Dxb.Text.Utf8

/-!
# Hexadecimal text in either case

A text is read as bytes exactly when it is, in upper case, what these bytes are written as.  It is
read at all exactly when its own bytes are an even number of digits (`isSome_decode?_iff`): no byte
of a longer character is one, so nothing is gained by reading characters instead of bytes.

    value? c = some v ↔ v < 16 ∧ c.toUpper = digit 'A' v                (value?_eq_some_iff)
    decode? text = some bytes ↔ text.toUpper = upper bytes              (decode?_eq_some_iff)
-/

namespace Dxb.Hex

/-! ## Digits -/

theorem value?_ascii_all : ∀ n, n < 128 →
    ∀ v ∈ value? (Char.ofNat n), v < 16 ∧ (Char.ofNat n).toUpper = digit 'A' v := by
  decide +kernel

theorem value?_of_toUpper_ascii_all : ∀ n, n < 128 → ∀ v, v < 16 →
    (Char.ofNat n).toUpper = digit 'A' v → value? (Char.ofNat n) = some v := by
  decide +kernel

theorem digit_lt_all : ∀ v, v < 16 → (digit 'A' v).toNat < 128 := by decide

theorem value?_of_not_ascii {c : Char} (h : 128 ≤ c.toNat) : value? c = none := by
  have hlt : ∀ d : Char, d.toNat < 128 → ¬ c ≤ d := by
    intro d hd hle
    have : c.toNat ≤ d.toNat := hle
    omega
  unfold value?
  rw [if_neg fun hc => hlt '9' (by decide) hc.2, if_neg fun hc => hlt 'f' (by decide) hc.2,
    if_neg fun hc => hlt 'F' (by decide) hc.2]

theorem toUpper_of_not_ascii {c : Char} (h : 128 ≤ c.toNat) : c.toUpper = c := by
  unfold Char.toUpper
  rw [dif_neg]
  rintro ⟨-, hle⟩
  have : c.toNat ≤ 'z'.toNat := hle
  exact absurd (Nat.le_trans h this) (by decide)

/-- The digits of a value, in either case. -/
theorem value?_eq_some_iff {c : Char} {v : Nat} :
    value? c = some v ↔ v < 16 ∧ c.toUpper = digit 'A' v := by
  rcases Nat.lt_or_ge c.toNat 128 with hc | hc
  · have hofNat := Char.ofNat_toNat c
    constructor
    · intro h
      have hall := value?_ascii_all c.toNat hc v
      rw [hofNat] at hall
      exact hall h
    · rintro ⟨hv, hupper⟩
      have hall := value?_of_toUpper_ascii_all c.toNat hc v hv
      rw [hofNat] at hall
      exact hall hupper
  · rw [value?_of_not_ascii hc, toUpper_of_not_ascii hc]
    constructor
    · intro h
      cases h
    · rintro ⟨hv, rfl⟩
      have := digit_lt_all v hv
      omega

theorem digit_injective {v w : Nat} (hv : v < 16) (hw : w < 16) (h : digit 'A' v = digit 'A' w) :
    v = w := by
  have hvalue := value?_digit_upper_all v hv
  rw [h, value?_digit_upper_all w hw] at hvalue
  exact (Option.some.inj hvalue).symm

/-! ## Pairs of digits -/

theorem digits_cons (ten : Char) (b : UInt8) (bytes : List UInt8) :
    digits ten (b :: bytes) =
      digit ten (b.toNat / 16) :: digit ten (b.toNat % 16) :: digits ten bytes := rfl

/-- Two digits are a byte, high digit first. -/
theorem cons_eq_digits_iff {high low : Char} {cs : List Char} {bytes : List UInt8} {h l : Nat}
    (hh : value? high = some h) (hl : value? low = some l) :
    (high :: low :: cs).map Char.toUpper = digits 'A' bytes ↔
      ∃ rest, bytes = UInt8.ofNat (16 * h + l) :: rest ∧ cs.map Char.toUpper = digits 'A' rest := by
  obtain ⟨hlt, hupper⟩ := value?_eq_some_iff.1 hh
  obtain ⟨llt, lupper⟩ := value?_eq_some_iff.1 hl
  have hbyte : (UInt8.ofNat (16 * h + l)).toNat = 16 * h + l := by
    rw [UInt8.toNat_ofNat']
    omega
  have hdiv : (16 * h + l) / 16 = h := by omega
  have hmod : (16 * h + l) % 16 = l := by omega
  constructor
  · intro heq
    cases bytes with
    | nil => simp [digits] at heq
    | cons b rest =>
      have hb := b.toNat_lt
      rw [digits_cons, List.map_cons, List.map_cons, hupper, lupper, List.cons.injEq,
        List.cons.injEq] at heq
      obtain ⟨heq1, heq2, hrest⟩ := heq
      have h1 := digit_injective hlt (by omega) heq1
      have h2 := digit_injective llt (by omega) heq2
      refine ⟨rest, ?_, hrest⟩
      rw [List.cons.injEq]
      refine ⟨UInt8.toNat_inj.1 ?_, rfl⟩
      omega
  · rintro ⟨rest, rfl, hrest⟩
    rw [digits_cons, List.map_cons, List.map_cons, hupper, lupper, hbyte, hdiv, hmod, hrest]

theorem decodeOnto_eq_some_iff {done bytes : List UInt8} {cs : List Char} :
    decodeOnto done cs = some bytes ↔
      ∃ read, bytes = done.reverse ++ read ∧ cs.map Char.toUpper = digits 'A' read := by
  fun_induction decodeOnto done cs with
  | case1 done =>
    rw [Option.some.injEq]
    constructor
    · rintro rfl
      exact ⟨[], (List.append_nil _).symm, rfl⟩
    · rintro ⟨read, rfl, hread⟩
      cases read with
      | nil => exact (List.append_nil _).symm
      | cons b rest => cases hread
  | case2 done high low rest h l hl hh ih =>
    rw [ih]
    simp only [cons_eq_digits_iff hh hl]
    constructor
    · rintro ⟨read, rfl, hread⟩
      exact ⟨_ :: read, by simp, read, rfl, hread⟩
    · rintro ⟨_, rfl, read, rfl, hread⟩
      exact ⟨read, by simp, hread⟩
  | case3 done high low rest hno =>
    -- two digits of a byte have values
    constructor
    · intro h
      cases h
    · rintro ⟨read, -, hread⟩
      cases read with
      | nil => cases hread
      | cons b read =>
        have hb := b.toNat_lt
        rw [digits_cons, List.map_cons, List.map_cons, List.cons.injEq, List.cons.injEq] at hread
        exact (hno _ _ (value?_eq_some_iff.2 ⟨by omega, hread.1⟩)
          (value?_eq_some_iff.2 ⟨by omega, hread.2.1⟩)).elim
  | case4 done high =>
    -- a byte has two digits
    constructor
    · intro h
      cases h
    · rintro ⟨read, -, hread⟩
      cases read with
      | nil => cases hread
      | cons b read => simp [digits_cons] at hread

theorem decode?_eq_some_iff {text : String} {bytes : List UInt8} :
    decode? text = some bytes ↔ text.toUpper = upper bytes := by
  rw [decode?, decodeOnto_eq_some_iff, ← String.toList_inj, String.toUpper, String.toList_map,
    upper, String.toList_ofList]
  constructor
  · rintro ⟨read, rfl, hread⟩
    exact hread
  · intro h
    exact ⟨bytes, rfl, h⟩

/-! ## The bytes of a text -/

/-- The ASCII codes of `0` to `9`, of `A` to `F` and of `a` to `f`. -/
def IsDigitCode (b : UInt8) : Prop :=
  0x30 ≤ b ∧ b ≤ 0x39 ∨ 0x41 ≤ b ∧ b ≤ 0x46 ∨ 0x61 ≤ b ∧ b ≤ 0x66

instance : DecidablePred IsDigitCode := fun b =>
  inferInstanceAs (Decidable (0x30 ≤ b ∧ b ≤ 0x39 ∨ 0x41 ≤ b ∧ b ≤ 0x46 ∨ 0x61 ≤ b ∧ b ≤ 0x66))

theorem isDigitCode_ascii_all : ∀ n, n < 128 →
    (IsDigitCode (UInt8.ofNat n) ↔ (value? (Char.ofNat n)).isSome = true) := by
  decide +kernel

theorem IsDigitCode.toNat_lt {b : UInt8} (h : IsDigitCode b) : b.toNat < 128 := by
  simp only [IsDigitCode, UInt8.le_iff_toNat_le, UInt8.reduceToNat] at h
  omega

/-- A character is a digit if its bytes are. -/
theorem isDigitCode_utf8EncodeChar_iff (c : Char) :
    (∀ b ∈ String.utf8EncodeChar c, IsDigitCode b) ↔ (value? c).isSome = true := by
  rcases Nat.lt_or_ge c.toNat 128 with hc | hc
  · have hall := isDigitCode_ascii_all c.toNat hc
    rw [Char.ofNat_toNat] at hall
    rw [utf8EncodeChar_of_ascii hc, List.forall_mem_singleton, hall]
  · rw [value?_of_not_ascii hc]
    constructor
    · intro h
      obtain ⟨b, hb⟩ := List.exists_mem_of_ne_nil _ (String.utf8EncodeChar_ne_nil (c := c))
      have hlt := (h b hb).toNat_lt
      have hle := le_of_mem_utf8EncodeChar hc hb
      omega
    · intro h
      cases h

theorem isDigitCode_utf8_iff (text : String) :
    (∀ b ∈ utf8 text, IsDigitCode b) ↔ ∀ c ∈ text.toList, (value? c).isSome = true := by
  simp only [utf8_eq_flatMap, List.mem_flatMap, ← isDigitCode_utf8EncodeChar_iff]
  constructor
  · exact fun h c hc b hb => h b ⟨c, hc, hb⟩
  · rintro h b ⟨c, hc, hb⟩
    exact h c hc b hb

theorem isSome_decodeOnto_iff (done : List UInt8) (cs : List Char) :
    (decodeOnto done cs).isSome = true ↔
      cs.length % 2 = 0 ∧ ∀ c ∈ cs, (value? c).isSome = true := by
  fun_induction decodeOnto done cs with
  | case1 done => simp
  | case2 done high low rest h l hl hh ih =>
    have hlength : (high :: low :: rest).length % 2 = rest.length % 2 := Nat.add_mod_right _ 2
    rw [ih, hlength, List.forall_mem_cons, List.forall_mem_cons, hh, hl]
    simp
  | case3 done high low rest hno =>
    -- one of the first two characters has no value
    constructor
    · intro h
      cases h
    · rintro ⟨-, hall⟩
      obtain ⟨h, hh⟩ := Option.isSome_iff_exists.1 (hall high (by simp))
      obtain ⟨l, hl⟩ := Option.isSome_iff_exists.1 (hall low (by simp))
      exact absurd hl (hno h l hh)
  | case4 done high => simp

/-- The texts that are read are those whose bytes are an even number of digits. -/
theorem isSome_decode?_iff (text : String) :
    (decode? text).isSome = true ↔
      (utf8 text).length % 2 = 0 ∧ ∀ b ∈ utf8 text, IsDigitCode b := by
  rw [decode?, isSome_decodeOnto_iff, isDigitCode_utf8_iff]
  -- digits are ASCII, so there are as many bytes as characters
  refine and_congr_left fun hdigits => ?_
  rw [length_utf8_of_ascii]
  intro c hc
  apply Nat.lt_of_not_le
  intro hle
  have hsome := hdigits c hc
  rw [value?_of_not_ascii hle] at hsome
  cases hsome

end Dxb.Hex
