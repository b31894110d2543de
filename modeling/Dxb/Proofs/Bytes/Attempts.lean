import Dxb.Proofs.Bytes.Buffers
import Dxb.Proofs.Bytes.Missing

/-!
# Attempts to read a field

A field is read from the bytes that it is written as, prefix included, and nowhere else
(`Field.read_eq_ok_iff`); where it cannot be read the cursor stays (`Field.stays_read`).  So after
any attempts the cursor stands within the buffer, and what the next one does there is known
(`attempts_exact`).
-/

namespace Dxb

namespace Reader

variable {α β : Type}

/-! ## Staying in place -/

/-- A reader that fails leaves the cursor where it was. -/
def Stays (r : Reader α) : Prop := ∀ c e d, r.run c = (.error e, d) → d = c

theorem stays_bytes (n : Nat) : (Reader.bytes n).Stays := by
  intro c e d h
  unfold Reader.bytes at h
  dsimp only at h
  split at h
  · exact (Prod.mk.inj h).2.symm
  · cases h

theorem stays_atomic (r : Reader α) : r.atomic.Stays := by
  intro c e d h
  unfold Reader.atomic at h
  dsimp only at h
  split at h
  · cases h
  · exact (Prod.mk.inj h).2.symm

theorem Stays.map {r : Reader α} (hr : r.Stays) (f : α → β) : (f <$> r).Stays := by
  intro c e d h
  have hbind : (f <$> r).run c = (r >>= fun a => pure (f a)).run c := rfl
  rw [hbind, run_bind] at h
  cases hrun : r.run c with
  | mk result d' =>
    rw [hrun] at h
    cases result with
    | ok a => cases h
    | error e' =>
      cases h
      exact hr c _ _ hrun

end Reader

theorem Field.stays_read (f : Field) : f.read.Stays :=
  f.read_induction Reader.stays_bytes (fun _ => Reader.stays_atomic _) (fun g h => h.map g)
    fun _ _ _ => Reader.stays_atomic _

namespace Reader

variable {α β : Type} {c d : Cursor}

/-! ## What was taken -/

theorem of_bind_eq_ok {r : Reader α} {f : α → Reader β} {b : β}
    (h : (r >>= f).run c = (.ok b, d)) :
    ∃ a c', r.run c = (.ok a, c') ∧ (f a).run c' = (.ok b, d) := by
  rw [run_bind] at h
  split at h
  · rename_i a c' hr
    exact ⟨a, c', hr, h⟩
  · cases h

theorem of_map_eq_ok {r : Reader α} {f : α → β} {b : β} (h : (f <$> r).run c = (.ok b, d)) :
    ∃ a, r.run c = (.ok a, d) ∧ f a = b := by
  obtain ⟨a, c', hr, hpure⟩ := of_bind_eq_ok h
  cases hpure
  exact ⟨a, hr, rfl⟩

theorem of_atomic_eq_ok {r : Reader α} {a : α} (h : r.atomic.run c = (.ok a, d)) :
    r.run c = (.ok a, d) := by
  unfold Reader.atomic at h
  dsimp only at h
  split at h
  · rename_i hr
    rw [hr, h]
  · cases h

theorem rest_of_bytes {n : Nat} {a : List UInt8} (h : (bytes n).run c = (.ok a, d)) :
    c.rest = a ++ d.rest := by
  unfold Reader.bytes at h
  dsimp only at h
  split at h
  · cases h
  · cases h
    exact (List.take_append_drop n c.rest).symm

theorem rest_of_number {width n : Nat} (h : (number width).run c = (.ok n, d)) :
    c.rest = littleEndian width n ++ d.rest := by
  obtain ⟨taken, hbytes, rfl⟩ := of_map_eq_ok h
  have hlength : taken.length = width := ensures_bytes width c taken d hbytes
  rw [← hlength, littleEndian_ofLittleEndian]
  exact rest_of_bytes hbytes

theorem of_text_eq_ok {n : Nat} {s : String} (h : (text n).run c = (.ok s, d)) :
    (utf8 s).length = n ∧ c.rest = utf8 s ++ d.rest := by
  obtain ⟨start, c', hposition, h⟩ := of_bind_eq_ok (of_atomic_eq_ok h)
  cases hposition
  obtain ⟨taken, c', hbytes, h⟩ := of_bind_eq_ok h
  split at h
  · rename_i s' htext
    cases h
    obtain rfl := ofUtf8?_eq_some_iff.1 htext
    exact ⟨ensures_bytes n c _ _ hbytes, rest_of_bytes hbytes⟩
  · cases h

end Reader

namespace Field

open Reader

/-- The bytes from which a field is read as a value: what is written for it, or any padding. -/
def Spells : (f : Field) → f.Value → List UInt8 → Prop
  | padding n, _, taken => taken.length = n
  | f, x, taken => f.Fits x ∧ taken = f.write x

variable {f : Field} {x : f.Value} {c d : Cursor}

theorem exists_spells_of_number {width n : Nat} (h : (number width).run c = (.ok n, d))
    (hspells : n < 256 ^ width → f.Spells x (littleEndian width n)) :
    ∃ taken, f.Spells x taken ∧ c.rest = taken ++ d.rest :=
  ⟨_, hspells (ensures_number width c n d h), rest_of_number h⟩

/-- What is taken of a field with a prefix begins with that. -/
theorem exists_spells_of_length {width n : Nat} {c' : Cursor} {content : List UInt8}
    (h : (number width).run c = (.ok n, c'))
    (hspells : n < 256 ^ width → f.Spells x (littleEndian width n ++ content))
    (hcontent : c'.rest = content ++ d.rest) :
    ∃ taken, f.Spells x taken ∧ c.rest = taken ++ d.rest := by
  refine ⟨_, hspells (ensures_number width c n c' h), ?_⟩
  rw [rest_of_number h, hcontent, List.append_assoc]

theorem exists_spells (h : f.read.run c = (.ok x, d)) :
    ∃ taken, f.Spells x taken ∧ c.rest = taken ++ d.rest := by
  cases f with
  | uint8 =>
    obtain ⟨n, hn, rfl⟩ := of_map_eq_ok h
    exact exists_spells_of_number hn fun _ => ⟨trivial, rfl⟩
  | int8 =>
    obtain ⟨b, hb, rfl⟩ := of_map_eq_ok h
    obtain ⟨n, hn, rfl⟩ := of_map_eq_ok hb
    exact exists_spells_of_number hn fun _ => ⟨trivial, rfl⟩
  | uint16 =>
    obtain ⟨n, hn, rfl⟩ := of_map_eq_ok h
    exact exists_spells_of_number hn fun hlt =>
      ⟨trivial, congrArg (littleEndian 2) (UInt16.toNat_ofNat_of_lt' hlt).symm⟩
  | int16 =>
    obtain ⟨b, hb, rfl⟩ := of_map_eq_ok h
    obtain ⟨n, hn, rfl⟩ := of_map_eq_ok hb
    exact exists_spells_of_number hn fun hlt =>
      ⟨trivial, congrArg (littleEndian 2) (UInt16.toNat_ofNat_of_lt' hlt).symm⟩
  | uint32 =>
    obtain ⟨n, hn, rfl⟩ := of_map_eq_ok h
    exact exists_spells_of_number hn fun hlt =>
      ⟨trivial, congrArg (littleEndian 4) (UInt32.toNat_ofNat_of_lt' hlt).symm⟩
  | int32 =>
    obtain ⟨b, hb, rfl⟩ := of_map_eq_ok h
    obtain ⟨n, hn, rfl⟩ := of_map_eq_ok hb
    exact exists_spells_of_number hn fun hlt =>
      ⟨trivial, congrArg (littleEndian 4) (UInt32.toNat_ofNat_of_lt' hlt).symm⟩
  | uint64 | float64 =>
    obtain ⟨n, hn, rfl⟩ := of_map_eq_ok h
    exact exists_spells_of_number hn fun hlt =>
      ⟨trivial, congrArg (littleEndian 8) (UInt64.toNat_ofNat_of_lt' hlt).symm⟩
  | int64 =>
    obtain ⟨b, hb, rfl⟩ := of_map_eq_ok h
    obtain ⟨n, hn, rfl⟩ := of_map_eq_ok hb
    exact exists_spells_of_number hn fun hlt =>
      ⟨trivial, congrArg (littleEndian 8) (UInt64.toNat_ofNat_of_lt' hlt).symm⟩
  | bytes n => exact ⟨x, ⟨ensures_bytes n c x d h, rfl⟩, rest_of_bytes h⟩
  | padding n =>
    obtain ⟨taken, hbytes, -⟩ := of_map_eq_ok h
    exact ⟨taken, ensures_bytes n c taken d hbytes, rest_of_bytes hbytes⟩
  | text n =>
    obtain ⟨hlength, hrest⟩ := of_text_eq_ok h
    exact ⟨utf8 x, ⟨hlength, rfl⟩, hrest⟩
  | shortText | longText =>
    obtain ⟨n, c', hn, htext⟩ := of_bind_eq_ok (of_atomic_eq_ok h)
    obtain ⟨rfl, hrest⟩ := of_text_eq_ok htext
    exact exists_spells_of_length hn (fun hlt => ⟨hlt, rfl⟩) hrest
  | longBytes =>
    obtain ⟨n, c', hn, hbytes⟩ := of_bind_eq_ok (of_atomic_eq_ok h)
    obtain rfl := ensures_bytes n c' x d hbytes
    exact exists_spells_of_length hn (fun hlt => ⟨hlt, rfl⟩) (rest_of_bytes hbytes)

theorem read_of_spells {taken : List UInt8} (h : f.Spells x taken) (rest : List UInt8) (o : Nat) :
    f.read.run ⟨taken ++ rest, o⟩ = (.ok x, ⟨rest, o + taken.length⟩) := by
  cases f with
  | padding n =>
    obtain rfl : taken.length = n := h
    exact ((takes_bytes taken).map fun _ => ()) rest o
  | uint8 | int8 | uint16 | int16 | uint32 | int32 | uint64 | int64 | float64 | bytes | text
  | shortText | longText | longBytes =>
    obtain ⟨hfits, rfl⟩ := h
    exact read_write _ _ hfits rest o

/-- A field is read as a value exactly where bytes stand that spell it, and these are taken. -/
theorem read_eq_ok_iff :
    f.read.run c = (.ok x, d) ↔ ∃ taken, f.Spells x taken ∧ c.rest = taken ++ d.rest ∧
      d.offset = c.offset + taken.length := by
  constructor
  · intro h
    obtain ⟨taken, hspells, hrest⟩ := exists_spells h
    obtain ⟨same, hsame, hoffset⟩ := f.read.forward c
    rw [h] at hsame hoffset
    rw [hrest] at hsame
    obtain rfl : taken = same := List.append_cancel_right hsame
    exact ⟨taken, hspells, hrest, hoffset⟩
  · rintro ⟨taken, hspells, hrest, hoffset⟩
    have hread := read_of_spells hspells d.rest c.offset
    rwa [← hrest, ← hoffset] at hread

end Field

/-! ## Attempts one after the other -/

namespace Cursor

/-- The cursor after attempts to read these fields; those that fail count as well. -/
def after (c : Cursor) (attempts : List Field) : Cursor :=
  attempts.foldl (fun c f => (f.read.run c).2) c

theorem reaches_after (c : Cursor) (attempts : List Field) : c.Reaches (c.after attempts) := by
  induction attempts generalizing c with
  | nil => exact .refl c
  | cons f attempts ih => exact (f.read.forward c).trans (ih _)

theorem Reaches.within {buffer : List UInt8} {c : Cursor} (h : (ofBytes buffer).Reaches c) :
    c = .within buffer c.offset ∧ c.offset + c.remaining = buffer.length := by
  obtain ⟨taken, hbuffer, hoffset⟩ := h
  obtain ⟨rest, offset⟩ := c
  change buffer = taken ++ rest at hbuffer
  obtain rfl : offset = taken.length := hoffset.trans (Nat.zero_add _)
  subst hbuffer
  rw [Cursor.within, List.drop_left, List.length_append]
  exact ⟨rfl, rfl⟩

theorem within_append {buffer : List UInt8} {o : Nat} (h : o ≤ buffer.length)
    (more : List UInt8) : within (buffer ++ more) o = ⟨(within buffer o).rest ++ more, o⟩ := by
  rw [within, within, List.drop_append_of_le_length h]

end Cursor

/-- After attempts to read any fields the cursor is within the buffer.  There any field is read
exactly from the bytes that spell it, and takes them; where it cannot be read, the cursor stays.  If
bytes are missing at some offset, then they are missing there, with as many fewer, until as many as
were needed stand behind the buffer. -/
theorem attempts_exact (buffer : List UInt8) (attempts : List Field) (f : Field) :
    let c := (Cursor.ofBytes buffer).after attempts
    c = .within buffer c.offset ∧ c.offset ≤ buffer.length ∧
      c.offset + c.remaining = buffer.length ∧
      (∀ x d, f.read.run c = (.ok x, d) ↔ ∃ taken, f.Spells x taken ∧
        c.rest = taken ++ d.rest ∧ d.offset = c.offset + taken.length) ∧
      (∀ e d, f.read.run c = (.error e, d) → d = c) ∧
      ∀ o needed d, f.read.run c = (.error (.unexpectedEof o needed), d) → ∀ more,
        let extended := Cursor.within (buffer ++ more) c.offset
        (more.length < needed → f.read.run extended =
          (.error (.unexpectedEof o (needed - more.length)), extended)) ∧
        (needed ≤ more.length → ∀ left d',
          f.read.run extended ≠ (.error (.unexpectedEof o left), d')) := by
  intro c
  obtain ⟨hwithin, hlength⟩ := (Cursor.reaches_after (.ofBytes buffer) attempts).within
  have hle : c.offset ≤ buffer.length := by
    rw [← hlength]
    exact Nat.le_add_right _ _
  refine ⟨hwithin, hle, hlength, fun x d => Field.read_eq_ok_iff, f.stays_read c, ?_⟩
  intro o needed d hlacks more extended
  have hextended : extended = ⟨c.rest ++ more, c.offset⟩ := by
    rw [show extended = _ from Cursor.within_append hle more, ← hwithin]
  have hlacks : f.read.Lacks c.rest c.offset o needed := congrArg Prod.fst hlacks
  constructor
  · intro hlt
    have hfewer := f.countsMissing_read.fewer hlacks hlt
    rw [Reader.Lacks, ← hextended] at hfewer
    cases hrun : f.read.run extended with
    | mk result d' =>
      rw [hrun] at hfewer
      cases hfewer
      rw [f.stays_read _ _ _ hrun]
  · intro hle left d' hagain
    apply f.countsMissing_read.enough hlacks hle left
    rw [Reader.Lacks, ← hextended, hagain]

/-- Behind one byte, and a number that is not there, a text lacks four of its five bytes; the fourth
one may make it no text. -/
theorem attempts_exact_of_short_text :
    let buffer : List UInt8 := [0, 5, 0x61]
    let c := (Cursor.ofBytes buffer).after [.uint8, .uint32]
    c = .within buffer 1 ∧
      Field.shortText.read.run c = (.error (.unexpectedEof 2 4), c) ∧
      Field.shortText.read.run (.within (buffer ++ [0x62, 0x63, 0x64]) 1) =
        (.error (.unexpectedEof 2 1), .within (buffer ++ [0x62, 0x63, 0x64]) 1) ∧
      ∀ left d, Field.shortText.read.run (.within (buffer ++ [0x62, 0x63, 0x64, 0xff]) 1) ≠
        (.error (.unexpectedEof 2 left), d) := by
  intro buffer c
  have hc : c = .within buffer 1 := by decide +kernel
  have hrun : Field.shortText.read.run c = (.error (.unexpectedEof 2 4), c) := by
    rw [hc]
    rfl
  obtain ⟨-, -, -, -, -, hmissing⟩ := attempts_exact buffer [.uint8, .uint32] .shortText
  rw [show (Cursor.ofBytes buffer).after [.uint8, .uint32] = .within buffer 1 from hc] at hmissing
  rw [hc] at hrun ⊢
  exact ⟨rfl, hrun, (hmissing 2 4 _ hrun [0x62, 0x63, 0x64]).1 (by decide),
    (hmissing 2 4 _ hrun [0x62, 0x63, 0x64, 0xff]).2 (by decide)⟩

end Dxb
