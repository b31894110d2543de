import Dxb.Proofs.Program.Nesting

/-!
# Runs, instruction by instruction

`ctx.Trace s c ms s' c'` says which instructions lead from one state to another, each with the
state and the place that it was met in.  These are the steps of a run with names
(`exists_trace_iff_steps`).
-/

namespace Dxb

/-- An instruction of a run, with the state and the place that it was met in. -/
structure Moment where
  state : DecoderState
  start : Cursor
  instruction : Instruction

namespace DecodeContext

variable {ctx : DecodeContext}

/-- At `c` stands an instruction, and there is room for what it opens. -/
def Meets (ctx : DecodeContext) (s : DecoderState) (c : Cursor) (i : Instruction) : Prop :=
  ∃ d, (Instruction.read (s.depth < ctx.levels)).run c = (.ok i, d)

/-- At `c` stands an instruction that can be applied; behind it the state is `s'`. -/
structure Takes (ctx : DecodeContext) (m : Moment) (s' : DecoderState) (c' : Cursor) : Prop where
  read : (Instruction.read (m.state.depth < ctx.levels)).run m.start = (.ok m.instruction, c')
  applies : m.state.halt? m.start.offset (ctx.effect m.state.depth m.instruction) = none
  state_eq : s' = m.state.apply (ctx.effect m.state.depth m.instruction)

inductive Trace (ctx : DecodeContext) :
    DecoderState → Cursor → List Moment → DecoderState → Cursor → Prop
  | nil (s : DecoderState) (c : Cursor) : Trace ctx s c [] s c
  | cons {m : Moment} {s₁ s' : DecoderState} {c₁ c' : Cursor} {ms : List Moment}
      (h : ctx.Takes m s₁ c₁) (rest : Trace ctx s₁ c₁ ms s' c') :
      Trace ctx m.state m.start (m :: ms) s' c'

theorem Takes.step {m : Moment} {s' : DecoderState} {c' : Cursor} (h : ctx.Takes m s' c') :
    ctx.step m.state m.start = (s', .ok c') :=
  step_eq_ok_iff.2 ⟨m.instruction, h.read, h.applies, h.state_eq⟩

theorem Takes.meets {m : Moment} {s' : DecoderState} {c' : Cursor} (h : ctx.Takes m s' c') :
    ctx.Meets m.state m.start m.instruction :=
  ⟨c', h.read⟩

/-- What nests is met only where there is a level left for it. -/
theorem Meets.room {s : DecoderState} {c : Cursor} {i : Instruction} (h : ctx.Meets s c i)
    (hn : i.nests = true) : s.depth < ctx.levels := by
  obtain ⟨d, hr⟩ := h
  simpa using Instruction.room_of_read hr hn

theorem Takes.room {m : Moment} {s' : DecoderState} {c' : Cursor} (h : ctx.Takes m s' c')
    (hn : m.instruction.nests = true) : m.state.depth < ctx.levels :=
  h.meets.room hn

theorem Meets.atEnd_eq_false {s : DecoderState} {c : Cursor} {i : Instruction}
    (h : ctx.Meets s c i) : c.atEnd = false := by
  obtain ⟨d, hr⟩ := h
  exact atEnd_eq_false_of_read hr

theorem Takes.size_le {m : Moment} {s' : DecoderState} {c' : Cursor} (h : ctx.Takes m s' c') :
    m.state.tree.size ≤ s'.tree.size := by
  rw [h.state_eq]
  exact m.state.size_le_apply _

theorem exists_takes_of_step {s s' : DecoderState} {c c' : Cursor}
    (h : ctx.step s c = (s', .ok c')) : ∃ i, ctx.Takes ⟨s, c, i⟩ s' c' := by
  obtain ⟨i, hr, ha, hs⟩ := step_eq_ok_iff.1 h
  exact ⟨i, hr, ha, hs⟩

variable {s s' : DecoderState} {c c' : Cursor} {ms : List Moment}

theorem Trace.steps (h : ctx.Trace s c ms s' c') : ctx.Steps s c s' c' := by
  induction h with
  | nil s c => exact .refl s c
  | cons h rest ih => exact .head h.step ih

theorem exists_trace_iff_steps : (∃ ms, ctx.Trace s c ms s' c') ↔ ctx.Steps s c s' c' := by
  constructor
  · rintro ⟨ms, h⟩
    exact h.steps
  · intro h
    induction h with
    | refl s c => exact ⟨[], .nil s c⟩
    | head hstep rest ih =>
      obtain ⟨i, hi⟩ := exists_takes_of_step hstep
      obtain ⟨ms, hms⟩ := ih
      exact ⟨_, .cons hi hms⟩

/-- Instructions up to the end are all that are met. -/
theorem Trace.mem_of_steps {s₁ : DecoderState} {c₁ : Cursor} {i : Instruction}
    (h : ctx.Trace s c ms s' c') (hend : c'.atEnd = true) (hsteps : ctx.Steps s c s₁ c₁)
    (hmeets : ctx.Meets s₁ c₁ i) : ⟨s₁, c₁, i⟩ ∈ ms := by
  induction hsteps generalizing ms with
  | refl s c =>
    cases h with
    | nil =>
      rw [hmeets.atEnd_eq_false] at hend
      cases hend
    | @cons m _ _ _ _ _ hm rest =>
      obtain ⟨d, hr⟩ := hmeets
      have hsame := hm.read.symm.trans hr
      cases hsame
      exact List.mem_cons_self
  | head hstep rest ih =>
    cases h with
    | nil =>
      rw [atEnd_eq_false_of_step hstep] at hend
      cases hend
    | cons hm rest' =>
      have hsame := hm.step.symm.trans hstep
      cases hsame
      exact List.mem_cons_of_mem _ (ih rest' hmeets)

/-- What holds at the start and is kept by every instruction holds after any instructions.  The
property may depend on the instructions so far. -/
theorem Trace.induction {P : List Moment → DecoderState → Prop} (h : ctx.Trace s c ms s' c')
    {before : List Moment} (hs : P before s)
    (hstep : ∀ before m s' c', ctx.Takes m s' c' → P before m.state → P (before ++ [m]) s') :
    P (before ++ ms) s' := by
  induction h generalizing before with
  | nil s c =>
    rw [List.append_nil]
    exact hs
  | @cons m s₁ s' c₁ c' ms h rest ih =>
    have hrest := ih (hstep before m s₁ c₁ h hs)
    rw [List.append_assoc] at hrest
    exact hrest

end DecodeContext

end Dxb
