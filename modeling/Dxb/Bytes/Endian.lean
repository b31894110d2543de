import Dxb.Digits

/-!
# Numbers as bytes

Little-endian numbers of a fixed width, big-endian numbers of the least width, and the reading of
both.

    ofLittleEndian (littleEndian w n) = n % 256 ^ w      (ofLittleEndian_littleEndian)
    littleEndian bytes.length (ofLittleEndian bytes) = bytes
-/

namespace Dxb

/-- The number whose base-256 digits are given, lowest first. -/
def ofLittleEndian (bytes : List UInt8) : Nat :=
  bytes.foldr (fun b high => b.toNat + 256 * high) 0

/-- The `width` lowest base-256 digits of a number, lowest first. -/
def littleEndian : (width : Nat) → Nat → List UInt8
  | 0, _ => []
  | width + 1, n => UInt8.ofNat n :: littleEndian width (n / 256)

/-- The number whose base-256 digits are given, highest first. -/
def ofBigEndian (bytes : List UInt8) : Nat :=
  bytes.foldl (fun high b => 256 * high + b.toNat) 0

/-- The base-256 digits of a number, highest first, without leading zeros; zero is one digit. -/
def bigEndian (n : Nat) : List UInt8 :=
  match Digits.digits 256 n with
  | [] => [0]
  | ds => ds.map UInt8.ofNat

/-! ## Lemmas -/

@[simp] theorem length_littleEndian (w n : Nat) : (littleEndian w n).length = w := by
  induction w generalizing n with
  | zero => rfl
  | succ w ih => simp [littleEndian, ih]

theorem ofLittleEndian_littleEndian (w n : Nat) :
    ofLittleEndian (littleEndian w n) = n % 256 ^ w := by
  induction w generalizing n with
  | zero => simp [littleEndian, ofLittleEndian, Nat.mod_one]
  | succ w ih =>
    have h : ofLittleEndian (littleEndian (w + 1) n) =
        n % 256 + 256 * ofLittleEndian (littleEndian w (n / 256)) := by
      simp [ofLittleEndian, littleEndian]
    rw [h, ih, Nat.pow_succ, Nat.mul_comm (256 ^ w), Nat.mod_mul]

theorem littleEndian_ofLittleEndian (bytes : List UInt8) :
    littleEndian bytes.length (ofLittleEndian bytes) = bytes := by
  induction bytes with
  | nil => rfl
  | cons b bytes ih =>
    have hb := b.toNat_lt
    have hcons : ofLittleEndian (b :: bytes) = b.toNat + 256 * ofLittleEndian bytes := rfl
    have hlow : UInt8.ofNat (b.toNat + 256 * ofLittleEndian bytes) = b := by
      apply UInt8.toNat_inj.1
      rw [UInt8.toNat_ofNat']
      omega
    have hhigh : (b.toNat + 256 * ofLittleEndian bytes) / 256 = ofLittleEndian bytes := by omega
    rw [List.length_cons, littleEndian, hcons, hlow, hhigh, ih]

end Dxb
