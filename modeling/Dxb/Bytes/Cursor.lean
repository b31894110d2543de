import Dxb.Error

/-!
# Reading bytes in order

A `Cursor` is a place in a buffer and a `Reader` a computation that moves it.  A reader also says
where it stopped when it failed, since what was read before a fault stays read unless the reader
says otherwise (`Reader.atomic`).  That no reader moves backwards is part of its type: every reader
takes some bytes from the front and counts them (`Cursor.Reaches`).
-/

namespace Dxb

/-- A place in a buffer: the bytes still to come, and how many lie behind. -/
structure Cursor where
  rest : List UInt8
  offset : Nat
deriving DecidableEq, Repr

namespace Cursor

def ofBytes (bytes : List UInt8) : Cursor := ⟨bytes, 0⟩

def remaining (c : Cursor) : Nat := c.rest.length

def atEnd (c : Cursor) : Bool := c.rest.isEmpty

/-- `c.Reaches d`: taking some bytes from `c` leads to `d`. -/
def Reaches (c d : Cursor) : Prop :=
  ∃ taken, c.rest = taken ++ d.rest ∧ d.offset = c.offset + taken.length

theorem Reaches.refl (c : Cursor) : c.Reaches c := ⟨[], rfl, rfl⟩

theorem Reaches.trans {c d e : Cursor} : c.Reaches d → d.Reaches e → c.Reaches e := by
  rintro ⟨s, hs, hs'⟩ ⟨t, ht, ht'⟩
  refine ⟨s ++ t, by rw [hs, ht, List.append_assoc], ?_⟩
  rw [ht', hs', List.length_append, Nat.add_assoc]

theorem Reaches.remaining_le {c d : Cursor} (h : c.Reaches d) : d.remaining ≤ c.remaining := by
  obtain ⟨t, ht, _⟩ := h
  simp [remaining, ht]

end Cursor

/-- A computation that takes bytes from the front of a cursor, or fails there. -/
structure Reader (α : Type) where
  run : Cursor → Except DecodeError α × Cursor
  forward : ∀ c : Cursor, c.Reaches (run c).2

namespace Reader

variable {α β : Type}

protected def pure (a : α) : Reader α := ⟨fun c => (.ok a, c), Cursor.Reaches.refl⟩

protected def bind (r : Reader α) (f : α → Reader β) : Reader β where
  run c := match r.run c with
    | (.ok a, d) => (f a).run d
    | (.error e, d) => (.error e, d)
  forward c := by
    have h := r.forward c
    split <;> rename_i a d hr <;> rw [hr] at h
    · exact h.trans ((f a).forward d)
    · exact h

instance : Monad Reader where
  pure := Reader.pure
  bind := Reader.bind

/-- Fails without moving. -/
def fail (e : DecodeError) : Reader α := ⟨fun c => (.error e, c), Cursor.Reaches.refl⟩

/-- The number of bytes read so far. -/
def position : Reader Nat := ⟨fun c => (.ok c.offset, c), Cursor.Reaches.refl⟩

/-- Runs a reader that goes back to where it began when it fails. -/
def atomic (r : Reader α) : Reader α where
  run c := match r.run c with
    | (.ok a, d) => (.ok a, d)
    | (.error e, _) => (.error e, c)
  forward c := by
    have h := r.forward c
    split <;> rename_i hr
    · rwa [hr] at h
    · exact .refl c

/-- Runs a reader whose faults are reported as another one. -/
def withFault (e : DecodeError) (r : Reader α) : Reader α where
  run c := match r.run c with
    | (.ok a, d) => (.ok a, d)
    | (.error _, d) => (.error e, d)
  forward c := by
    have h := r.forward c
    split <;> rename_i hr <;> rwa [hr] at h

/-- The next `n` bytes; when fewer are left, says how many are missing. -/
def bytes (n : Nat) : Reader (List UInt8) where
  run c :=
    let taken := c.rest.take n
    if taken.length < n then (.error (.unexpectedEof c.offset (n - taken.length)), c)
    else (.ok taken, ⟨c.rest.drop n, c.offset + n⟩)
  forward c := by
    dsimp only
    split
    · exact .refl c
    · rename_i h
      refine ⟨c.rest.take n, (List.take_append_drop n c.rest).symm, ?_⟩
      have := List.length_take_le n c.rest
      simp only
      omega

/-- Runs a reader `n` times. -/
def repeated (r : Reader α) : (n : Nat) → Reader (List α)
  | 0 => pure []
  | n + 1 => do
    let a ← r
    let rest ← repeated r n
    pure (a :: rest)

/-! ## Lemmas -/

@[simp] theorem run_pure (a : α) (c : Cursor) : (pure a : Reader α).run c = (.ok a, c) := rfl

@[simp] theorem run_fail (e : DecodeError) (c : Cursor) :
    (fail e : Reader α).run c = (.error e, c) := rfl

@[simp] theorem run_position (c : Cursor) : position.run c = (.ok c.offset, c) := rfl

theorem run_bind (r : Reader α) (f : α → Reader β) (c : Cursor) :
    (r >>= f).run c = match r.run c with
      | (.ok a, d) => (f a).run d
      | (.error e, d) => (.error e, d) := rfl

/-- Reading bytes that are there takes exactly them. -/
theorem run_bytes_append (taken rest : List UInt8) (o : Nat) :
    (bytes taken.length).run ⟨taken ++ rest, o⟩ = (.ok taken, ⟨rest, o + taken.length⟩) := by
  simp [bytes]

theorem remaining_le (r : Reader α) (c : Cursor) : (r.run c).2.remaining ≤ c.remaining :=
  (r.forward c).remaining_le

end Reader

end Dxb
