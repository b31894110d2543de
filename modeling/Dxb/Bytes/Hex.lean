/-!
# Hexadecimal text

Two digits a byte, high digit first.  Writing is in upper or lower case; reading takes either and
nothing else, not even blanks.

    decode? (upper bytes) = some bytes                 (decode?_upper)
    decode? (lower bytes) = some bytes                 (decode?_lower)
-/

namespace Dxb.Hex

/-- The digit of a number below sixteen; letters start at `ten`. -/
def digit (ten : Char) (n : Nat) : Char :=
  if n < 10 then Char.ofNat ('0'.toNat + n) else Char.ofNat (ten.toNat + (n - 10))

/-- The value of a hex digit in either case. -/
def value? (c : Char) : Option Nat :=
  if '0' ≤ c ∧ c ≤ '9' then some (c.toNat - '0'.toNat)
  else if 'a' ≤ c ∧ c ≤ 'f' then some (c.toNat - 'a'.toNat + 10)
  else if 'A' ≤ c ∧ c ≤ 'F' then some (c.toNat - 'A'.toNat + 10)
  else none

/-- The two digits of each byte. -/
def digits (ten : Char) (bytes : List UInt8) : List Char :=
  bytes.flatMap fun b => [digit ten (b.toNat / 16), digit ten (b.toNat % 16)]

def upper (bytes : List UInt8) : String := String.ofList (digits 'A' bytes)

def lower (bytes : List UInt8) : String := String.ofList (digits 'a' bytes)

/-- Reads digits pair by pair onto `done`, which holds the bytes so far, last first. -/
def decodeOnto (done : List UInt8) : List Char → Option (List UInt8)
  | [] => some done.reverse
  | high :: low :: rest =>
    match value? high, value? low with
    | some h, some l => decodeOnto (UInt8.ofNat (16 * h + l) :: done) rest
    | _, _ => none
  | [_] => none

/-- The bytes that a text spells: an even number of hex digits in either case. -/
def decode? (text : String) : Option (List UInt8) := decodeOnto [] text.toList

/-! ## Lemmas -/

theorem value?_digit_upper_all : ∀ n, n < 16 → value? (digit 'A' n) = some n := by decide

theorem value?_digit_lower_all : ∀ n, n < 16 → value? (digit 'a' n) = some n := by decide

theorem decodeOnto_digits {ten : Char} (h : ∀ n, n < 16 → value? (digit ten n) = some n)
    (done bytes : List UInt8) :
    decodeOnto done (digits ten bytes) = some (done.reverse ++ bytes) := by
  induction bytes generalizing done with
  | nil => simp [digits, decodeOnto]
  | cons b bytes ih =>
    have hb := b.toNat_lt
    have step : decodeOnto done (digits ten (b :: bytes)) =
        decodeOnto (b :: done) (digits ten bytes) := by
      have hsum : UInt8.ofNat (16 * (b.toNat / 16) + b.toNat % 16) = b := by
        rw [Nat.div_add_mod]
        simp
      simp [digits, decodeOnto, h (b.toNat / 16) (by omega), h (b.toNat % 16) (by omega), hsum]
    rw [step, ih]
    simp

theorem decode?_upper (bytes : List UInt8) : decode? (upper bytes) = some bytes := by
  simp [decode?, upper, decodeOnto_digits value?_digit_upper_all]

theorem decode?_lower (bytes : List UInt8) : decode? (lower bytes) = some bytes := by
  simp [decode?, lower, decodeOnto_digits value?_digit_lower_all]

end Dxb.Hex
