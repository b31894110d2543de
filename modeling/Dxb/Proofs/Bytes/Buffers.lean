import Dxb.Proofs.Bytes.Written

/-!
# Fields in a buffer

Fields of any kinds that are appended to a buffer, one after the other, are read back in the same
order.  Each is read from exactly the bytes that it added, so the cursor goes through the buffer as
the buffer grew, and ends where that ended (`FilledField.read_back`).
-/

namespace Dxb

/-- The place in a buffer with so many of its bytes behind it. -/
def Cursor.within (buffer : List UInt8) (offset : Nat) : Cursor := ⟨buffer.drop offset, offset⟩

/-- Where a reader takes the middle of a buffer, it goes from the end of the front to the end of the
middle. -/
theorem Reader.Takes.run_within {α : Type} {r : Reader α} {middle : List UInt8} {a : α}
    (h : r.Takes middle a) (front back : List UInt8) :
    r.run (.within (front ++ middle ++ back) front.length) =
      (.ok a, .within (front ++ middle ++ back) (front ++ middle).length) := by
  have hfront : (front ++ middle ++ back).drop front.length = middle ++ back := by
    rw [List.append_assoc, List.drop_left]
  rw [Cursor.within, Cursor.within, hfront, List.drop_left, List.length_append]
  exact h back front.length

/-- A field with what it holds. -/
structure FilledField where
  field : Field
  value : field.Value

namespace FilledField

def bytes (x : FilledField) : List UInt8 := x.field.write x.value

def Fits (x : FilledField) : Prop := x.field.Fits x.value

instance : DecidablePred Fits := fun x => inferInstanceAs (Decidable (x.field.Fits x.value))

/-- Appends a field to a buffer. -/
def push (buffer : List UInt8) (x : FilledField) : List UInt8 := buffer ++ x.bytes

/-- The buffer that fields make up, the first one in front. -/
def buffer (xs : List FilledField) : List UInt8 := xs.foldl push []

/-- Reads a field of each kind, one after the other. -/
def readEach : List Field → Reader (List FilledField)
  | [] => pure []
  | f :: fields => do
    let value ← f.read
    let rest ← readEach fields
    pure (⟨f, value⟩ :: rest)

theorem buffer_eq_flatMap (xs : List FilledField) : buffer xs = xs.flatMap bytes :=
  List.flatMap_eq_foldl.symm

theorem buffer_append_cons (before : List FilledField) (x : FilledField)
    (after : List FilledField) :
    buffer (before ++ x :: after) = buffer before ++ x.bytes ++ buffer after := by
  simp only [buffer_eq_flatMap, List.flatMap_append, List.flatMap_cons, List.append_assoc]

theorem takes (x : FilledField) (h : x.Fits) : x.field.read.Takes x.bytes x.value :=
  Field.takes x.field x.value h

theorem takes_each (xs : List FilledField) (h : ∀ x ∈ xs, x.Fits) :
    (readEach (xs.map field)).Takes (buffer xs) xs := by
  rw [buffer_eq_flatMap]
  induction xs with
  | nil => exact Reader.takes_pure []
  | cons x xs ih =>
    have hx := x.takes (h x List.mem_cons_self)
    have hxs := ih fun y hy => h y (List.mem_cons_of_mem x hy)
    exact hx.bind (hxs.finish (Reader.takes_pure (x :: xs)))

/-- Fields that fit are read from the buffer that they make up as they were written, and nothing is
left of it.  The fields in front of each of them take the cursor to where the buffer ended before
that field was appended, and the field takes it from there to where the buffer ended then. -/
theorem read_back (xs : List FilledField) (h : ∀ x ∈ xs, x.Fits) :
    (readEach (xs.map field)).run (.ofBytes (buffer xs)) =
        (.ok xs, ⟨[], (buffer xs).length⟩) ∧
      ∀ before x after, xs = before ++ x :: after →
        (readEach (before.map field)).run (.ofBytes (buffer xs)) =
            (.ok before, .within (buffer xs) (buffer before).length) ∧
          x.field.read.run (.within (buffer xs) (buffer before).length) =
            (.ok x.value, .within (buffer xs) (push (buffer before) x).length) := by
  constructor
  · have hall := takes_each xs h [] 0
    rwa [List.append_nil, Nat.zero_add] at hall
  · rintro before x after rfl
    have hbefore := takes_each before fun y hy => h y (List.mem_append_left _ hy)
    have hx := x.takes (h x (List.mem_append_right _ List.mem_cons_self))
    rw [buffer_append_cons]
    refine ⟨?_, hx.run_within (buffer before) (buffer after)⟩
    have hstart := hbefore.run_within [] (x.bytes ++ buffer after)
    rwa [List.nil_append, ← List.append_assoc] at hstart

/-- Numbers at the ends of their ranges, a float that is not a number, and texts with and without
length; the first text is read between the bytes 3 and 7. -/
theorem read_back_of_extremes :
    let xs : List FilledField := [⟨.int8, (-128 : Int8)⟩, ⟨.uint16, (65535 : UInt16)⟩,
      ⟨.shortText, "é\x00"⟩, ⟨.float64, (0x7ff8000000000001 : UInt64)⟩, ⟨.longBytes, []⟩,
      ⟨.int64, (-9223372036854775808 : Int64)⟩, ⟨.longText, ""⟩]
    (∀ x ∈ xs, x.Fits) ∧
      (readEach (xs.map field)).run (.ofBytes (buffer xs)) = (.ok xs, ⟨[], 31⟩) ∧
      Field.shortText.read.run (.within (buffer xs) 3) =
        (.ok "é\x00", .within (buffer xs) 7) := by
  intro xs
  have hfits : ∀ x ∈ xs, x.Fits := by decide +kernel
  obtain ⟨hall, heach⟩ := read_back xs hfits
  have hlength : (buffer xs).length = 31 := by decide +kernel
  rw [hlength] at hall
  exact ⟨hfits, hall, (heach (xs.take 2) xs[2] (xs.drop 3) rfl).2⟩

end FilledField

end Dxb
