import Dxb.Program.Effect

/-!
# Reading a program into a token tree

The state of a decoder is the tree so far and the scopes that are open in it.  One step reads one
instruction and applies its effect; an instruction that fails changes nothing.  Connectives count
their members and close by themselves when they are complete.  Decoding ends with the bytes, or at
the first instruction that fails or panics.
-/

namespace Dxb

/-- What ends decoding before the bytes end. -/
inductive Halt where
  /-- An error that is reported, with what was decoded before it. -/
  | fault (e : DecodeError)
  /-- A panic, which ends whatever goes on and gives nothing back. -/
  | panic
deriving DecidableEq, Repr

/-- A scope that is open, and for a connective how many members it still expects. -/
structure OpenScope where
  id : Nat
  awaiting : Option Nat
deriving DecidableEq, Repr

/-- Counts one member towards the innermost scope.  A connective that becomes complete closes and
counts as one member of the scope around it. -/
def completeMember : List OpenScope → List OpenScope
  | [] => []
  | s :: outer =>
    match s.awaiting with
    | none => s :: outer
    | some n => if 1 < n then { s with awaiting := some (n - 1) } :: outer else completeMember outer

structure DecoderState where
  tree : TokenTree
  /-- Innermost first; the root is not among them. -/
  openScopes : List OpenScope
deriving DecidableEq, Repr

namespace DecoderState

def initial : DecoderState := ⟨TokenTree.empty, []⟩

/-- The scope that tokens are appended to. -/
def current (s : DecoderState) : Nat :=
  match s.openScopes with
  | [] => TokenTree.root
  | scope :: _ => scope.id

def depth (s : DecoderState) : Nat := s.openScopes.length

/-- Applies an effect.  Closing needs an open scope; without one nothing changes, and neither does
it by a panic. -/
def apply (s : DecoderState) : Effect → DecoderState
  | .nothing => s
  | .append token counts =>
    ⟨s.tree.push s.current token, if counts then completeMember s.openScopes else s.openScopes⟩
  | .opens kind members =>
    let id := s.tree.size
    let tree := s.tree.openScope s.current kind
    -- a connective without members is complete at once
    if members = some 0 then ⟨tree, completeMember s.openScopes⟩
    else ⟨tree, ⟨id, members⟩ :: s.openScopes⟩
  | .closes =>
    match s.openScopes with
    | [] => s
    | _ :: outer => ⟨s.tree, completeMember outer⟩
  | .panics => s

/-- Why the effect of an instruction that begins at `start` cannot be applied, if so. -/
def halt? (s : DecoderState) (start : Nat) : Effect → Option Halt
  | .closes => if s.openScopes.isEmpty then some (.fault (.noParentScope start)) else none
  | .panics => some .panic
  | _ => none

end DecoderState

/-- What decoding depends on besides the bytes. -/
structure DecodeContext where
  options : Options
  /-- How many levels may be open within the program. -/
  levels : Nat
  /-- The text of a nested program that may open the given number of levels, unless it panics. -/
  nested : Nat → List UInt8 → Option String

namespace DecodeContext

variable (ctx : DecodeContext)

/-- The effect of an instruction where `depth` scopes are open. -/
def effect (depth : Nat) (i : Instruction) : Effect :=
  i.effect ctx.options (ctx.nested (ctx.levels - depth - 1))

/-- Reads one instruction and applies it. -/
def step (s : DecoderState) (c : Cursor) : DecoderState × Except Halt Cursor :=
  match (Instruction.read (s.depth < ctx.levels)).run c with
  | (.error e, _) => (s, .error (.fault e))
  | (.ok instruction, rest) =>
    let effect := ctx.effect s.depth instruction
    match s.halt? c.offset effect with
    | some h => (s, .error h)
    | none => (s.apply effect, .ok rest)

/-- Reading an instruction takes at least its first byte. -/
theorem remaining_lt_of_read {room : Bool} {c d : Cursor} {i : Instruction}
    (h : (Instruction.read room).run c = (.ok i, d)) : d.remaining < c.remaining := by
  obtain ⟨rest, o⟩ := c
  cases rest with
  | nil =>
    simp [Instruction.read, Reader.run_bind, Reader.uint8, Reader.number, Reader.bytes] at h
  | cons b rest =>
    have hb : Reader.uint8.run ⟨b :: rest, o⟩ = (.ok b, ⟨rest, o + 1⟩) := by
      have := Field.read_write .uint8 b trivial rest o
      simpa [Field.read, Field.write] using this
    have hle := (Instruction.readRest room o b).remaining_le ⟨rest, o + 1⟩
    simp only [Instruction.read, Reader.run_bind, Reader.run_position, hb] at h
    rw [h] at hle
    simp only [Cursor.remaining, List.length_cons] at hle ⊢
    omega

theorem remaining_lt_of_step {s s' : DecoderState} {c d : Cursor}
    (h : ctx.step s c = (s', .ok d)) : d.remaining < c.remaining := by
  unfold step at h
  split at h
  · simp at h
  · rename_i i rest hr
    dsimp only at h
    split at h
    · simp at h
    · simp only [Prod.mk.injEq, Except.ok.injEq] at h
      exact h.2 ▸ remaining_lt_of_read hr

/-- Reads instructions until the end or the first that fails or panics. -/
def run (s : DecoderState) (c : Cursor) : DecoderState × Option Halt :=
  if c.atEnd then (s, none)
  else
    match _ : ctx.step s c with
    | (s', .error h) => (s', some h)
    | (s', .ok rest) => run s' rest
termination_by c.remaining
decreasing_by exact ctx.remaining_lt_of_step ‹_›

end DecodeContext

end Dxb
