/-!
# Tables of weak references

Values lie in cells.  A cell counts its owners, and a handle (`Ref`) is the place of a cell together
with the value there, which never changes.  A registry finds the cell of a key without owning it:
the entry of a key whose cell has no owners leads nowhere, and whoever gives back the last handle
has the entry removed.
-/

namespace Dxb

/-- A handle to a value.  Two handles are the same when they lead to the same place. -/
structure Ref (α : Type) where
  place : Nat
  value : α
deriving DecidableEq

def Ref.same {α : Type} (a b : Ref α) : Bool := a.place == b.place

structure Cell (α : Type) where
  /-- What the value is registered under. -/
  key : String
  value : α
  owners : Nat
deriving DecidableEq

structure Registry (α : Type) where
  /-- All cells there ever were, each at its place. -/
  cells : List (Cell α)
  /-- The places of the cells that keys lead to. -/
  table : List (String × Nat)
deriving DecidableEq

namespace Registry

variable {α : Type}

def empty : Registry α := ⟨[], []⟩

/-- How many own the cell at a place. -/
def owners (r : Registry α) (place : Nat) : Nat := (r.cells[place]?.map (·.owners)).getD 0

/-- What lies at a place. -/
def value? (r : Registry α) (place : Nat) : Option α := r.cells[place]?.map (·.value)

/-- What the cell at a place is registered under. -/
def key? (r : Registry α) (place : Nat) : Option String := r.cells[place]?.map (·.key)

/-- The values of the cells that have owners. -/
def alive (r : Registry α) : List α := (r.cells.filter (0 < ·.owners)).map (·.value)

/-- A handle to a cell, if the cell has owners. -/
def upgrade? (r : Registry α) (place : Nat) : Option (Ref α) :=
  if 0 < r.owners place then (r.value? place).map (⟨place, ·⟩) else none

/-- A handle to the cell that a key leads to. -/
def find? (r : Registry α) (key : String) : Option (Ref α) :=
  (r.table.lookup key).bind r.upgrade?

def contains (r : Registry α) (key : String) : Bool := (r.find? key).isSome

/-- Counts the owners of a cell anew. -/
def recount (r : Registry α) (place : Nat) (f : Nat → Nat) : Registry α :=
  { r with cells := r.cells.modify place fun c => { c with owners := f c.owners } }

/-- One owner more. -/
def share (r : Registry α) (place : Nat) : Registry α := r.recount place (· + 1)

/-- Registers a value in a cell of its own, and gives the first handle to it. -/
def insert (r : Registry α) (key : String) (value : α) : Ref α × Registry α :=
  let place := r.cells.length
  (⟨place, value⟩, ⟨r.cells ++ [⟨key, value, 1⟩], (key, place) :: r.table.filter (·.1 != key)⟩)

/-- Removes the entry of a key, unless it leads to a cell with owners. -/
def release (r : Registry α) (key : String) : Registry α :=
  if r.contains key then r else { r with table := r.table.filter (·.1 != key) }

/-- One owner less.  If it was the last one, the entry goes too, and the value is handed over for
its own handles to be given back. -/
def drop (r : Registry α) (place : Nat) : Option α × Registry α :=
  let left := r.recount place (· - 1)
  match r.cells[place]? with
  | some ⟨key, value, 1⟩ => (some value, left.release key)
  | _ => (none, left)

/-! ## Lemmas -/

variable (r : Registry α)

theorem lookup_filter_ne (table : List (String × Nat)) (key k : String) :
    (table.filter (·.1 != key)).lookup k = if k = key then none else table.lookup k := by
  induction table with
  | nil => simp
  | cons entry table ih =>
    obtain ⟨k', place⟩ := entry
    by_cases hk' : k' = key
    · subst hk'
      by_cases hk : k = k'
      · simpa [hk] using ih
      · have hne : (k == k') = false := by simpa using hk
        simpa [List.lookup_cons, hk, hne] using ih
    · by_cases hk : k = k'
      · subst hk
        simp [hk']
      · have hne : (k == k') = false := by simpa using hk
        simpa [List.lookup_cons, hk', hne] using ih

@[simp] theorem value?_recount (p q : Nat) (f : Nat → Nat) :
    (r.recount p f).value? q = r.value? q := by
  by_cases h : p = q
  · subst h
    simp [recount, value?, Function.comp_def]
  · simp [recount, value?, h]

@[simp] theorem key?_recount (p q : Nat) (f : Nat → Nat) :
    (r.recount p f).key? q = r.key? q := by
  by_cases h : p = q
  · subst h
    simp [recount, key?, Function.comp_def]
  · simp [recount, key?, h]

theorem owners_recount_self {p : Nat} (h : 0 < r.owners p) (f : Nat → Nat) :
    (r.recount p f).owners p = f (r.owners p) := by
  unfold owners recount at *
  cases hc : r.cells[p]? with
  | none => simp [hc] at h
  | some c => simp [hc]

theorem owners_recount_ne {p q : Nat} (h : p ≠ q) (f : Nat → Nat) :
    (r.recount p f).owners q = r.owners q := by
  simp [recount, owners, h]

@[simp] theorem value?_share (p q : Nat) : (r.share p).value? q = r.value? q :=
  value?_recount r p q _

@[simp] theorem key?_share (p q : Nat) : (r.share p).key? q = r.key? q := key?_recount r p q _

@[simp] theorem owners_release (key : String) (q : Nat) :
    (r.release key).owners q = r.owners q := by
  unfold release
  split <;> rfl

@[simp] theorem value?_release (key : String) (q : Nat) :
    (r.release key).value? q = r.value? q := by
  unfold release
  split <;> rfl

@[simp] theorem key?_release (key : String) (q : Nat) : (r.release key).key? q = r.key? q := by
  unfold release
  split <;> rfl

@[simp] theorem place_insert (key : String) (value : α) :
    (r.insert key value).1.place = r.cells.length := rfl

theorem getElem?_insert (key : String) (value : α) (q : Nat) :
    (r.insert key value).2.cells[q]? =
      if q = r.cells.length then some ⟨key, value, 1⟩ else r.cells[q]? := by
  simp only [insert, List.getElem?_append]
  split
  · rw [if_neg (by omega)]
  · by_cases hq : q = r.cells.length
    · simp [hq]
    · rw [if_neg hq, List.getElem?_eq_none (by simp; omega), List.getElem?_eq_none (by omega)]

theorem owners_insert (key : String) (value : α) (q : Nat) :
    (r.insert key value).2.owners q = if q = r.cells.length then 1 else r.owners q := by
  unfold owners
  rw [getElem?_insert]
  split <;> rfl

theorem value?_insert (key : String) (value : α) (q : Nat) :
    (r.insert key value).2.value? q = if q = r.cells.length then some value else r.value? q := by
  unfold value?
  rw [getElem?_insert]
  split <;> rfl

theorem key?_insert (key : String) (value : α) (q : Nat) :
    (r.insert key value).2.key? q = if q = r.cells.length then some key else r.key? q := by
  unfold key?
  rw [getElem?_insert]
  split <;> rfl

end Registry

end Dxb
