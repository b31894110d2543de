/-!
# Base64 text

Four characters for three bytes, six bits each, high bits first.  The last group is filled up with
`=`, and reading insists on it: the length is a multiple of four, and the bits of the last character
that no byte has are zero.  Nothing else may stand in the text, not even blanks.

    decode? (encode bytes) = some bytes                (decode?_encode)
-/

namespace Dxb.Base64

/-- The character of a number below 64. -/
def character (n : Nat) : Char :=
  if n < 26 then Char.ofNat ('A'.toNat + n)
  else if n < 52 then Char.ofNat ('a'.toNat + (n - 26))
  else if n < 62 then Char.ofNat ('0'.toNat + (n - 52))
  else if n = 62 then '+' else '/'

def value? (c : Char) : Option Nat :=
  if 'A' ≤ c ∧ c ≤ 'Z' then some (c.toNat - 'A'.toNat)
  else if 'a' ≤ c ∧ c ≤ 'z' then some (c.toNat - 'a'.toNat + 26)
  else if '0' ≤ c ∧ c ≤ '9' then some (c.toNat - '0'.toNat + 52)
  else if c = '+' then some 62
  else if c = '/' then some 63
  else none

/-- The characters of a run of bytes, the last group filled up. -/
def characters : List UInt8 → List Char
  | a :: b :: c :: rest =>
    character (a.toNat / 4) :: character (a.toNat % 4 * 16 + b.toNat / 16) ::
      character (b.toNat % 16 * 4 + c.toNat / 64) :: character (c.toNat % 64) :: characters rest
  | [a, b] =>
    [character (a.toNat / 4), character (a.toNat % 4 * 16 + b.toNat / 16),
      character (b.toNat % 16 * 4), '=']
  | [a] => [character (a.toNat / 4), character (a.toNat % 4 * 16), '=', '=']
  | [] => []

def encode (bytes : List UInt8) : String := String.ofList (characters bytes)

/-- The bytes of a group that ends in `=`; the third character may be one as well. -/
def decodeLast? (a b c : Char) : Option (List UInt8) := do
  let x ← value? a
  let y ← value? b
  if c = '=' then
    if y % 16 = 0 then some [UInt8.ofNat (x * 4 + y / 16)] else none
  else
    let z ← value? c
    if z % 4 = 0 then some [UInt8.ofNat (x * 4 + y / 16), UInt8.ofNat (y % 16 * 16 + z / 4)]
    else none

/-- Reads group by group onto `done`, which holds the bytes so far, last first. -/
def decodeOnto (done : List UInt8) : List Char → Option (List UInt8)
  | [] => some done.reverse
  | a :: b :: c :: d :: rest =>
    if d = '=' then
      if rest.isEmpty then (decodeLast? a b c).map (done.reverse ++ ·) else none
    else do
      let x ← value? a
      let y ← value? b
      let z ← value? c
      let w ← value? d
      decodeOnto (UInt8.ofNat (z % 4 * 64 + w) :: UInt8.ofNat (y % 16 * 16 + z / 4) ::
        UInt8.ofNat (x * 4 + y / 16) :: done) rest
  | _ => none

/-- The bytes that a text spells. -/
def decode? (text : String) : Option (List UInt8) := decodeOnto [] text.toList

/-! ## Lemmas -/

theorem value?_character : ∀ n, n < 64 → value? (character n) = some n := by decide

theorem character_ne_pad : ∀ n, n < 64 → character n ≠ '=' := by decide

theorem ofNat_eq {n : Nat} {a : UInt8} (h : n = a.toNat) : UInt8.ofNat n = a := by
  subst h
  exact UInt8.ofNat_toNat

theorem decodeOnto_characters (done bytes : List UInt8) :
    decodeOnto done (characters bytes) = some (done.reverse ++ bytes) := by
  induction bytes using characters.induct generalizing done with
  | case1 a b c rest ih =>
    have ha := a.toNat_lt
    have hb := b.toNat_lt
    have hc := c.toNat_lt
    simp only [characters, decodeOnto, character_ne_pad (c.toNat % 64) (by omega), if_false,
      value?_character (a.toNat / 4) (by omega),
      value?_character (a.toNat % 4 * 16 + b.toNat / 16) (by omega),
      value?_character (b.toNat % 16 * 4 + c.toNat / 64) (by omega),
      value?_character (c.toNat % 64) (by omega), Option.bind_eq_bind, Option.bind_some, ih]
    rw [ofNat_eq (a := c) (by omega), ofNat_eq (a := b) (by omega), ofNat_eq (a := a) (by omega)]
    simp
  | case2 a b =>
    have ha := a.toNat_lt
    have hb := b.toNat_lt
    simp only [characters, decodeOnto, decodeLast?, character_ne_pad (b.toNat % 16 * 4) (by omega),
      if_false, if_true, List.isEmpty_nil,
      value?_character (a.toNat / 4) (by omega),
      value?_character (a.toNat % 4 * 16 + b.toNat / 16) (by omega),
      value?_character (b.toNat % 16 * 4) (by omega), Option.bind_eq_bind, Option.bind_some]
    rw [if_pos (by omega), ofNat_eq (a := a) (by omega), ofNat_eq (a := b) (by omega)]
    simp
  | case3 a =>
    have ha := a.toNat_lt
    simp only [characters, decodeOnto, decodeLast?, if_true, List.isEmpty_nil,
      value?_character (a.toNat / 4) (by omega), value?_character (a.toNat % 4 * 16) (by omega),
      Option.bind_eq_bind, Option.bind_some]
    rw [if_pos (by omega), ofNat_eq (a := a) (by omega)]
    simp
  | case4 => simp [characters, decodeOnto]

theorem decode?_encode (bytes : List UInt8) : decode? (encode bytes) = some bytes := by
  simp [decode?, encode, decodeOnto_characters]

end Dxb.Base64
