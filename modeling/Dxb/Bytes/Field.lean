import Dxb.Bytes.Cursor
import Dxb.Bytes.Endian
import Dxb.Text.Utf8

/-!
# Fields of a record

The primitive parts that DXB records are made of.  Numbers are little-endian; a text or a run of
bytes has its length in front, in one byte (short) or four (long), or a length known beforehand.
Each kind of field has a reader and a writer, and a value that fits is read back as it was written,
whatever follows (`Field.read_write`).
-/

namespace Dxb

/-- The kinds of field. -/
inductive Field where
  | uint8 | int8 | uint16 | int16 | uint32 | int32 | uint64 | int64
  /-- A binary64 number, kept as its bits. -/
  | float64
  | bytes (n : Nat)
  /-- Bytes without meaning, written as zeros. -/
  | padding (n : Nat)
  | text (n : Nat)
  | shortText
  | longText
  | longBytes
deriving DecidableEq, Repr

/-- What a field holds. -/
@[reducible] def Field.Value : Field → Type
  | .uint8 => UInt8
  | .int8 => Int8
  | .uint16 => UInt16
  | .int16 => Int16
  | .uint32 => UInt32
  | .int32 => Int32
  | .uint64 => UInt64
  | .int64 => Int64
  | .float64 => UInt64
  | .bytes _ => List UInt8
  | .padding _ => Unit
  | .text _ => String
  | .shortText => String
  | .longText => String
  | .longBytes => List UInt8

namespace Reader

/-- A little-endian number of `width` bytes. -/
def number (width : Nat) : Reader Nat := do return ofLittleEndian (← bytes width)

def uint8 : Reader UInt8 := do return UInt8.ofNat (← number 1)
def int8 : Reader Int8 := do return (← uint8).toInt8
def uint16 : Reader UInt16 := do return UInt16.ofNat (← number 2)
def int16 : Reader Int16 := do return (← uint16).toInt16
def uint32 : Reader UInt32 := do return UInt32.ofNat (← number 4)
def int32 : Reader Int32 := do return (← uint32).toInt32
def uint64 : Reader UInt64 := do return UInt64.ofNat (← number 8)
def int64 : Reader Int64 := do return (← uint64).toInt64

def padding (n : Nat) : Reader Unit := do let _ ← bytes n

/-- UTF-8 text of `n` bytes; bytes that are no text are left unread. -/
def text (n : Nat) : Reader String := atomic do
  let start ← position
  match ofUtf8? (← bytes n) with
  | some s => pure s
  | none => fail (.invalidUtf8 start)

def shortText : Reader String := atomic do text (← number 1)
def longText : Reader String := atomic do text (← number 4)
def longBytes : Reader (List UInt8) := atomic do bytes (← number 4)

end Reader

namespace Field

/-- Reads one field; a field that cannot be read leaves the cursor where it was. -/
def read : (f : Field) → Reader f.Value
  | uint8 => Reader.uint8
  | int8 => Reader.int8
  | uint16 => Reader.uint16
  | int16 => Reader.int16
  | uint32 => Reader.uint32
  | int32 => Reader.int32
  | uint64 => Reader.uint64
  | int64 => Reader.int64
  | float64 => Reader.uint64
  | bytes n => Reader.bytes n
  | padding n => Reader.padding n
  | text n => Reader.text n
  | shortText => Reader.shortText
  | longText => Reader.longText
  | longBytes => Reader.longBytes

/-- The bytes of one field.  A length that does not fit its place loses its high bits. -/
def write : (f : Field) → f.Value → List UInt8
  | uint8, (x : UInt8) => [x]
  | int8, (x : Int8) => [x.toUInt8]
  | uint16, (x : UInt16) => littleEndian 2 x.toNat
  | int16, (x : Int16) => littleEndian 2 x.toUInt16.toNat
  | uint32, (x : UInt32) => littleEndian 4 x.toNat
  | int32, (x : Int32) => littleEndian 4 x.toUInt32.toNat
  | uint64, (x : UInt64) => littleEndian 8 x.toNat
  | int64, (x : Int64) => littleEndian 8 x.toUInt64.toNat
  | float64, (x : UInt64) => littleEndian 8 x.toNat
  | bytes _, (x : List UInt8) => x
  | padding n, () => List.replicate n 0
  | text _, (s : String) => utf8 s
  | shortText, (s : String) => littleEndian 1 (utf8 s).length ++ utf8 s
  | longText, (s : String) => littleEndian 4 (utf8 s).length ++ utf8 s
  | longBytes, (x : List UInt8) => littleEndian 4 x.length ++ x

/-- The values whose length a field can write down. -/
def Fits : (f : Field) → f.Value → Prop
  | bytes n, (x : List UInt8) => x.length = n
  | text n, (s : String) => (utf8 s).length = n
  | shortText, (s : String) => (utf8 s).length < 256
  | longText, (s : String) => (utf8 s).length < 2 ^ 32
  | longBytes, (x : List UInt8) => x.length < 2 ^ 32
  | _, _ => True

instance (f : Field) (x : f.Value) : Decidable (f.Fits x) := by
  cases f <;> unfold Fits <;> infer_instance

/-! ## Lemmas -/

/-- What holds of bytes and texts of known length, and of what is made of them, with a length in
front or without, holds of all fields. -/
theorem read_induction {P : {α : Type} → Reader α → Prop} (bytes : ∀ n, P (Reader.bytes n))
    (text : ∀ n, P (Reader.text n))
    (map : ∀ {α β : Type} {r : Reader α} (g : α → β), P r → P (g <$> r))
    (prefixed : ∀ {α : Type} (width : Nat) {content : Nat → Reader α}, (∀ n, P (content n)) →
      P (Reader.atomic (Reader.number width >>= content)))
    (f : Field) : P f.read := by
  have number : ∀ width, P (Reader.number width) := fun width => map _ (bytes width)
  cases f with
  | uint8 | uint16 | uint32 | uint64 | float64 => exact map _ (number _)
  | int8 | int16 | int32 | int64 => exact map _ (map _ (number _))
  | bytes n => exact bytes n
  | padding n => exact map (fun _ => ()) (bytes n)
  | text n => exact text n
  | shortText => exact prefixed 1 text
  | longText => exact prefixed 4 text
  | longBytes => exact prefixed 4 bytes

/-- A number that is there is read back, below the bound of its width. -/
theorem run_number (w n o : Nat) (rest : List UInt8) :
    (Reader.number w).run ⟨littleEndian w n ++ rest, o⟩ = (.ok (n % 256 ^ w), ⟨rest, o + w⟩) := by
  have h := Reader.run_bytes_append (littleEndian w n) rest o
  rw [length_littleEndian] at h
  simp [Reader.number, Reader.run_bind, h, ofLittleEndian_littleEndian]

theorem run_text (s : String) (rest : List UInt8) (o : Nat) :
    (Reader.text (utf8 s).length).run ⟨utf8 s ++ rest, o⟩ =
      (.ok s, ⟨rest, o + (utf8 s).length⟩) := by
  simp only [Reader.text, Reader.atomic, Reader.run_bind, Reader.run_position,
    Reader.run_bytes_append, ofUtf8?_utf8, Reader.run_pure]

/-- A value that fits is read back as it was written, and what follows is left. -/
theorem read_write (f : Field) (x : f.Value) (h : f.Fits x) (rest : List UInt8) (o : Nat) :
    f.read.run ⟨f.write x ++ rest, o⟩ = (.ok x, ⟨rest, o + (f.write x).length⟩) := by
  have one : ∀ b : UInt8, [b] = littleEndian 1 b.toNat := fun b => by simp [littleEndian]
  cases f with
  | uint8 =>
    rw [show write uint8 x = littleEndian 1 x.toNat from one x]
    simp [read, Reader.uint8, Reader.run_bind, run_number]
  | int8 =>
    rw [show write int8 x = littleEndian 1 x.toUInt8.toNat from one x.toUInt8]
    simp [read, Reader.int8, Reader.uint8, Reader.run_bind, run_number]
  | uint16 => simp [read, write, Reader.uint16, Reader.run_bind, run_number]
  | int16 => simp [read, write, Reader.int16, Reader.uint16, Reader.run_bind, run_number]
  | uint32 => simp [read, write, Reader.uint32, Reader.run_bind, run_number]
  | int32 => simp [read, write, Reader.int32, Reader.uint32, Reader.run_bind, run_number]
  | uint64 => simp [read, write, Reader.uint64, Reader.run_bind, run_number]
  | int64 => simp [read, write, Reader.int64, Reader.uint64, Reader.run_bind, run_number]
  | float64 => simp [read, write, Reader.uint64, Reader.run_bind, run_number]
  | bytes n =>
    have hx : List.length x = n := h
    simpa only [read, write, hx] using Reader.run_bytes_append x rest o
  | padding n =>
    have := Reader.run_bytes_append (List.replicate n 0) rest o
    rw [List.length_replicate] at this
    simp [read, write, Reader.padding, Reader.run_bind, this]
  | text n =>
    have hx : (utf8 x).length = n := h
    simpa only [read, write, hx] using run_text x rest o
  | shortText =>
    have hx : (utf8 x).length % 256 ^ 1 = (utf8 x).length := Nat.mod_eq_of_lt h
    simp only [read, write, Reader.shortText, Reader.atomic, Reader.run_bind, List.append_assoc,
      run_number, hx, run_text, List.length_append, length_littleEndian, Nat.add_assoc]
  | longText =>
    have hx : (utf8 x).length % 256 ^ 4 = (utf8 x).length := Nat.mod_eq_of_lt h
    simp only [read, write, Reader.longText, Reader.atomic, Reader.run_bind, List.append_assoc,
      run_number, hx, run_text, List.length_append, length_littleEndian, Nat.add_assoc]
  | longBytes =>
    have hx : x.length % 256 ^ 4 = x.length := Nat.mod_eq_of_lt h
    simp only [read, write, Reader.longBytes, Reader.atomic, Reader.run_bind, List.append_assoc,
      run_number, hx, Reader.run_bytes_append, List.length_append, length_littleEndian,
      Nat.add_assoc]

end Field

end Dxb
