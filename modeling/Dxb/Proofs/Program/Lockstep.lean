import Dxb.Proofs.Program.Layout
import Dxb.Proofs.Program.Trace

/-!
# Two runs in lockstep

A run is followed by a run of another decoder if both read the same instruction from the same
bytes, and whatever relates the two states before an instruction relates them after it
(`Lockstep`).  Then the runs end in related states and with the same error or a panic, though the
second one may be further on in its bytes by any number `k`:

    (ctx'.run t (c.moved k)).2 = (ctx.run s c).2.map (·.moved k)               (Lockstep.run)
-/

namespace Dxb

namespace Halt

/-- The same end of a program that begins `k` bytes further on. -/
def moved (k : Nat) : Halt → Halt
  | fault e => fault (e.moved k)
  | panic => panic

theorem moved_zero : Halt.moved 0 = id := by
  funext h
  cases h with
  | fault e => cases e <;> rfl
  | panic => rfl

end Halt

namespace DecodeContext

/-- `R s c t` relates the state `s` of the first decoder at `c` to the state `t` of the second. -/
structure Lockstep (ctx ctx' : DecodeContext) (R : DecoderState → Cursor → DecoderState → Prop) :
    Prop where
  reads : ∀ {s c t}, R s c t → (Instruction.read (t.depth < ctx'.levels)).run c =
    (Instruction.read (s.depth < ctx.levels)).run c
  closes : ∀ {s c t}, R s c t → t.openScopes.isEmpty = s.openScopes.isEmpty
  panics : ∀ {s c t i}, R s c t → ctx.Meets s c i →
    (ctx'.effect t.depth i = .panics ↔ ctx.effect s.depth i = .panics)
  applies : ∀ {s c t i s' c'}, R s c t → ctx.Takes ⟨s, c, i⟩ s' c' →
    R s' c' (t.apply (ctx'.effect t.depth i))

namespace Lockstep

variable {ctx ctx' : DecodeContext} {R : DecoderState → Cursor → DecoderState → Prop}
  {s s' t : DecoderState} {c c' : Cursor} {k : Nat}

/-- What both decoders meet can be applied by both or by none. -/
theorem halt?_eq (h : Lockstep ctx ctx' R) (hR : R s c t) {i : Instruction}
    (hmeets : ctx.Meets s c i) (k : Nat) :
    t.halt? (c.offset + k) (ctx'.effect t.depth i) =
      (s.halt? c.offset (ctx.effect s.depth i)).map (Halt.moved k) := by
  have hopen : t.openScopes = [] ↔ s.openScopes = [] := by
    rw [← List.isEmpty_iff, ← List.isEmpty_iff, h.closes hR]
  rw [halt?_effect, halt?_effect]
  simp only [hopen, h.panics hR hmeets]
  split
  · rfl
  · split <;> rfl

/-- The second decoder reads further on what the first one reads. -/
theorem reads_moved (h : Lockstep ctx ctx' R) (hR : R s c t) (k : Nat) :
    (Instruction.read (t.depth < ctx'.levels)).run (c.moved k) =
      (((Instruction.read (s.depth < ctx.levels)).run c).1.mapError (·.moved k),
        ((Instruction.read (s.depth < ctx.levels)).run c).2.moved k) := by
  rw [(Instruction.alike_read _).run_moved c, h.reads hR]

theorem step_ok (h : Lockstep ctx ctx' R) (hR : R s c t) (hstep : ctx.step s c = (s', .ok c')) :
    ∃ t', ctx'.step t (c.moved k) = (t', .ok (c'.moved k)) ∧ R s' c' t' := by
  obtain ⟨i, htakes⟩ := exists_takes_of_step hstep
  refine ⟨_, step_eq_ok_iff.2 ⟨i, ?_, ?_, rfl⟩, h.applies hR htakes⟩
  · rw [h.reads_moved hR, htakes.read]
    rfl
  · have hhalt := h.halt?_eq hR htakes.meets k
    rw [htakes.applies] at hhalt
    exact hhalt

theorem step_error (h : Lockstep ctx ctx' R) (hR : R s c t) {e : Halt}
    (hstep : ctx.step s c = (s, .error e)) :
    ctx'.step t (c.moved k) = (t, .error (e.moved k)) := by
  have hreads := h.reads_moved hR k
  refine step_eq_error_iff.2 ⟨rfl, ?_⟩
  rcases (step_eq_error_iff.1 hstep).2 with ⟨e', d, hr, rfl⟩ | ⟨i, d, hr, hhalt⟩
  · rw [hr] at hreads
    exact .inl ⟨_, _, hreads, rfl⟩
  · rw [hr] at hreads
    have hmoved := h.halt?_eq hR ⟨d, hr⟩ k
    rw [hhalt] at hmoved
    exact .inr ⟨i, _, hreads, hmoved⟩

theorem steps (h : Lockstep ctx ctx' R) (hsteps : ctx.Steps s c s' c') (hR : R s c t) :
    ∃ t', ctx'.Steps t (c.moved k) t' (c'.moved k) ∧ R s' c' t' := by
  induction hsteps generalizing t with
  | refl s c => exact ⟨t, .refl _ _, hR⟩
  | head hstep rest ih =>
    obtain ⟨t₁, hstep', hR₁⟩ := h.step_ok hR hstep
    obtain ⟨t', hsteps', hR'⟩ := ih hR₁
    exact ⟨t', .head hstep' hsteps', hR'⟩

theorem run (h : Lockstep ctx ctx' R) (hR : R s c t) (k : Nat) :
    ∃ c', R (ctx.run s c).1 c' (ctx'.run t (c.moved k)).1 ∧
      (ctx'.run t (c.moved k)).2 = (ctx.run s c).2.map (Halt.moved k) := by
  obtain ⟨c', hsteps, hend⟩ := exists_steps_run ctx s c
  obtain ⟨t', hsteps', hR'⟩ := h.steps (k := k) hsteps hR
  refine ⟨c', ?_⟩
  rw [hsteps'.run_eq]
  rcases hend with ⟨hend, hnone⟩ | ⟨hmore, e, he, hfail⟩
  · have hrun : ctx'.run t' (c'.moved k) = (t', none) := run_of_atEnd hend
    rw [hrun, hnone]
    exact ⟨hR', rfl⟩
  · have hrun : ctx'.run t' (c'.moved k) = (t', some (e.moved k)) :=
      run_of_step_error hmore (h.step_error hR' hfail)
    rw [hrun, he]
    exact ⟨hR', rfl⟩

/-- Two runs over the same bytes fail in the same place. -/
theorem run_here (h : Lockstep ctx ctx' R) (hR : R s c t) :
    ∃ c', R (ctx.run s c).1 c' (ctx'.run t c).1 ∧ (ctx'.run t c).2 = (ctx.run s c).2 := by
  obtain ⟨c', hR', herror⟩ := h.run hR 0
  rw [Halt.moved_zero, Option.map_id] at herror
  exact ⟨c', hR', herror⟩

/-- Decoders whose states are always the same decode a program in the same way. -/
theorem decode_eq (h : Lockstep ctx ctx' R) (hsame : ∀ {s c t}, R s c t → t = s)
    {body : List UInt8} (hR : R .initial (.ofBytes body) .initial) :
    ctx'.decode body = ctx.decode body := by
  obtain ⟨c', hR', herror⟩ := h.run_here hR
  unfold decode
  dsimp only
  rw [hsame hR', herror]

end Lockstep

/-! ## Decoders that do the same -/

variable {ctx ctx' : DecodeContext}

/-- Where the bytes begin decides nothing but where an error is noticed. -/
theorem run_moved (ctx : DecodeContext) (s : DecoderState) (c : Cursor) (k : Nat) :
    ctx.run s (c.moved k) = ((ctx.run s c).1, (ctx.run s c).2.map (Halt.moved k)) := by
  have h : Lockstep ctx ctx fun s _ t => t = s := by
    refine ⟨?_, ?_, ?_, ?_⟩
    · rintro s c t rfl
      rfl
    · rintro s c t rfl
      rfl
    · rintro s c t i rfl _
      exact Iff.rfl
    · rintro s c t i s' c' rfl htakes
      exact htakes.state_eq.symm
  obtain ⟨-, hstate, herror⟩ := h.run (c := c) (Eq.refl s) k
  exact Prod.ext hstate herror

/-- With the same levels, decoders do the same if all instructions that one of them meets have the
same effect in both. -/
theorem decode_congr (hlevels : ctx'.levels = ctx.levels)
    (heffect : ∀ {s c i}, ctx.Meets s c i → ctx'.effect s.depth i = ctx.effect s.depth i)
    (body : List UInt8) : ctx'.decode body = ctx.decode body := by
  have h : Lockstep ctx ctx' fun s _ t => t = s := by
    refine ⟨?_, ?_, ?_, ?_⟩
    · rintro s c t rfl
      rw [hlevels]
    · rintro s c t rfl
      rfl
    · rintro s c t i rfl hmeets
      rw [heffect hmeets]
    · rintro s c t i s' c' rfl htakes
      rw [heffect htakes.meets]
      exact htakes.state_eq.symm
  exact h.decode_eq id rfl

end DecodeContext

end Dxb
