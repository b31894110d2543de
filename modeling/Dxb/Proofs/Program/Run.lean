import Dxb.Program.Decompile
import Dxb.Proofs.Bytes.Locality

/-!
# Runs of instructions

`ctx.Steps s c s' c'` says that complete instructions lead from one state to another.  A run of a
decoder is such steps up to the end of the bytes or to an instruction that fails or panics
(`exists_steps_run`).
Instructions do not look ahead, so the same steps are taken in front of any other bytes
(`Steps.before`).  Hence a body that is rejected falls apart into the instructions that were read
and the one that was not (`exists_split_of_error`).
-/

namespace Dxb

namespace DecoderState

variable {s : DecoderState} {effect : Effect}

/-- An effect can be applied unless it panics or closes a scope while none is open. -/
theorem halt?_eq_none_iff {start : Nat} : s.halt? start effect = none ↔
    effect ≠ .panics ∧ (effect = .closes → s.openScopes ≠ []) := by
  cases effect with
  | closes => simp [halt?]
  | panics => simp [halt?]
  | _ => exact iff_of_true rfl ⟨nofun, nofun⟩

theorem halt?_eq_panic_iff {start : Nat} :
    s.halt? start effect = some .panic ↔ effect = .panics := by
  cases effect <;> simp [halt?]

end DecoderState

namespace DecodeContext

variable {ctx : DecodeContext}

/-- Complete instructions, read and applied one after the other. -/
inductive Steps (ctx : DecodeContext) : DecoderState → Cursor → DecoderState → Cursor → Prop
  | refl (s : DecoderState) (c : Cursor) : Steps ctx s c s c
  | head {s s₁ s' : DecoderState} {c c₁ c' : Cursor} (h : ctx.step s c = (s₁, .ok c₁))
      (rest : Steps ctx s₁ c₁ s' c') : Steps ctx s c s' c'

/-! ## One step -/

/-- A step that ends decoding changes nothing: no instruction was read, or one that cannot be
applied. -/
theorem step_eq_error_iff {s s' : DecoderState} {c : Cursor} {h : Halt} :
    ctx.step s c = (s', .error h) ↔ s' = s ∧
      ((∃ e d, (Instruction.read (s.depth < ctx.levels)).run c = (.error e, d) ∧ h = .fault e) ∨
        ∃ i d, (Instruction.read (s.depth < ctx.levels)).run c = (.ok i, d) ∧
          s.halt? c.offset (ctx.effect s.depth i) = some h) := by
  unfold step
  constructor
  · intro hstep
    split at hstep
    · rename_i e d hr
      cases hstep
      exact ⟨rfl, .inl ⟨e, d, hr, rfl⟩⟩
    · rename_i i d hr
      dsimp only at hstep
      split at hstep
      · rename_i hhalt
        cases hstep
        exact ⟨rfl, .inr ⟨i, d, hr, hhalt⟩⟩
      · cases hstep
  · rintro ⟨rfl, ⟨e, d, hr, rfl⟩ | ⟨i, d, hr, hhalt⟩⟩
    · rw [hr]
    · rw [hr]
      dsimp only
      rw [hhalt]

theorem state_of_step_error {s s' : DecoderState} {c : Cursor} {h : Halt}
    (hstep : ctx.step s c = (s', .error h)) : s' = s :=
  (step_eq_error_iff.1 hstep).1

/-- A step that succeeds reads an instruction that can be applied. -/
theorem step_eq_ok_iff {s s' : DecoderState} {c d : Cursor} :
    ctx.step s c = (s', .ok d) ↔
      ∃ i, (Instruction.read (s.depth < ctx.levels)).run c = (.ok i, d) ∧
        s.halt? c.offset (ctx.effect s.depth i) = none ∧
        s' = s.apply (ctx.effect s.depth i) := by
  unfold step
  constructor
  · intro h
    split at h
    · cases h
    · rename_i i rest hr
      dsimp only at h
      split at h
      · cases h
      · rename_i hc
        cases h
        exact ⟨i, hr, hc, rfl⟩
  · rintro ⟨i, hr, hc, rfl⟩
    rw [hr]
    dsimp only
    rw [hc]

/-- A step takes the same instruction in front of any other bytes. -/
theorem step_before {s s' : DecoderState} {taken rest : List UInt8} {o o' : Nat}
    (h : ctx.step s ⟨taken ++ rest, o⟩ = (s', .ok ⟨rest, o'⟩)) (rest' : List UInt8) :
    ctx.step s ⟨taken ++ rest', o⟩ = (s', .ok ⟨rest', o'⟩) := by
  obtain ⟨i, hr, hc, hs⟩ := step_eq_ok_iff.1 h
  exact step_eq_ok_iff.2 ⟨i, Instruction.local_read _ _ _ _ _ _ hr rest', hc, hs⟩

theorem exists_taken_of_step {s s' : DecoderState} {c d : Cursor}
    (h : ctx.step s c = (s', .ok d)) :
    ∃ taken, c.rest = taken ++ d.rest ∧ d.offset = c.offset + taken.length := by
  obtain ⟨i, hr, -, -⟩ := step_eq_ok_iff.1 h
  exact Reader.exists_taken hr

/-! ## Many steps -/

theorem Steps.exists_taken {s s' : DecoderState} {c c' : Cursor} (h : ctx.Steps s c s' c') :
    ∃ taken, c.rest = taken ++ c'.rest ∧ c'.offset = c.offset + taken.length := by
  induction h with
  | refl s c => exact ⟨[], rfl, rfl⟩
  | @head s s₁ s' c c₁ c' hstep rest ih =>
    obtain ⟨t₁, h₁, o₁⟩ := exists_taken_of_step hstep
    obtain ⟨t₂, h₂, o₂⟩ := ih
    refine ⟨t₁ ++ t₂, ?_, ?_⟩
    · rw [h₁, h₂, List.append_assoc]
    · rw [o₂, o₁, List.length_append]
      omega

theorem Steps.before {s s' : DecoderState} {c c' : Cursor} (h : ctx.Steps s c s' c')
    {taken : List UInt8} (ht : c.rest = taken ++ c'.rest) (rest' : List UInt8) :
    ctx.Steps s ⟨taken ++ rest', c.offset⟩ s' ⟨rest', c'.offset⟩ := by
  induction h generalizing taken with
  | refl s c =>
    have hnil : taken = [] := by simpa using ht
    rw [hnil]
    exact .refl _ _
  | @head s s₁ s' c c₁ c' hstep rest ih =>
    obtain ⟨t₁, h₁, -⟩ := exists_taken_of_step hstep
    obtain ⟨t₂, h₂, -⟩ := rest.exists_taken
    have htaken : taken = t₁ ++ t₂ := by
      rw [h₁, h₂, ← List.append_assoc] at ht
      exact (List.append_cancel_right ht).symm
    subst htaken
    have hstep' : ctx.step s ⟨t₁ ++ c₁.rest, c.offset⟩ = (s₁, .ok ⟨c₁.rest, c₁.offset⟩) := by
      rw [← h₁]
      exact hstep
    rw [List.append_assoc]
    exact .head (step_before hstep' (t₂ ++ rest')) (ih h₂)

theorem Steps.concat {s s₁ s' : DecoderState} {c c₁ c' : Cursor} (h : ctx.Steps s c s₁ c₁)
    (hstep : ctx.step s₁ c₁ = (s', .ok c')) : ctx.Steps s c s' c' := by
  induction h with
  | refl s c => exact .head hstep (.refl _ _)
  | head hfirst rest ih => exact .head hfirst (ih hstep)

/-! ## Runs -/

theorem run_of_atEnd {s : DecoderState} {c : Cursor} (h : c.atEnd = true) :
    ctx.run s c = (s, none) := by
  rw [run, if_pos h]

theorem run_of_step_ok {s s₁ : DecoderState} {c c₁ : Cursor} (hc : c.atEnd = false)
    (h : ctx.step s c = (s₁, .ok c₁)) : ctx.run s c = ctx.run s₁ c₁ := by
  rw [run, if_neg (by simp [hc])]
  split
  · rename_i heq
    rw [h] at heq
    cases heq
  · rename_i heq
    rw [h] at heq
    cases heq
    rfl

theorem run_of_step_error {s : DecoderState} {c : Cursor} {e : Halt} (hc : c.atEnd = false)
    (h : ctx.step s c = (s, .error e)) : ctx.run s c = (s, some e) := by
  rw [run, if_neg (by simp [hc])]
  split
  · rename_i heq
    rw [h] at heq
    cases heq
    rfl
  · rename_i heq
    rw [h] at heq
    cases heq

/-- At the end of the bytes there is no instruction. -/
theorem atEnd_eq_false_of_read {room : Bool} {c d : Cursor} {i : Instruction}
    (h : (Instruction.read room).run c = (.ok i, d)) : c.atEnd = false := by
  have hlt := remaining_lt_of_read h
  cases hc : c.atEnd with
  | false => rfl
  | true =>
    have hnil : c.rest = [] := by simpa [Cursor.atEnd] using hc
    simp [Cursor.remaining, hnil] at hlt

theorem atEnd_eq_false_of_step {s s' : DecoderState} {c d : Cursor}
    (h : ctx.step s c = (s', .ok d)) : c.atEnd = false := by
  obtain ⟨i, hr, -, -⟩ := step_eq_ok_iff.1 h
  exact atEnd_eq_false_of_read hr

theorem Steps.run_eq {s s' : DecoderState} {c c' : Cursor} (h : ctx.Steps s c s' c') :
    ctx.run s c = ctx.run s' c' := by
  induction h with
  | refl s c => rfl
  | head hstep rest ih => rw [run_of_step_ok (atEnd_eq_false_of_step hstep) hstep, ih]

/-- Every run is complete instructions, and then the end or an instruction that ends it. -/
theorem exists_steps_run (ctx : DecodeContext) (s : DecoderState) (c : Cursor) :
    ∃ c', ctx.Steps s c (ctx.run s c).1 c' ∧
      ((c'.atEnd = true ∧ (ctx.run s c).2 = none) ∨
        (c'.atEnd = false ∧ ∃ e, (ctx.run s c).2 = some e ∧
          ctx.step (ctx.run s c).1 c' = ((ctx.run s c).1, .error e))) := by
  induction hn : c.remaining using Nat.strongRecOn generalizing s c with
  | ind n ih =>
    cases hc : c.atEnd with
    | true =>
      rw [run_of_atEnd hc]
      exact ⟨c, .refl _ _, .inl ⟨hc, rfl⟩⟩
    | false =>
      cases hstep : ctx.step s c with
      | mk s₁ result =>
        cases result with
        | error e =>
          have hs := state_of_step_error hstep
          subst hs
          rw [run_of_step_error hc hstep]
          exact ⟨c, .refl _ _, .inr ⟨hc, e, rfl, hstep⟩⟩
        | ok c₁ =>
          have hlt := ctx.remaining_lt_of_step hstep
          rw [run_of_step_ok hc hstep]
          obtain ⟨c', hsteps, hend⟩ := ih c₁.remaining (by omega) s₁ c₁ rfl
          exact ⟨c', .head hstep hsteps, hend⟩

/-- What every step keeps, many steps keep. -/
theorem Steps.induction {P : DecoderState → Prop}
    (hstep : ∀ s c s' d, ctx.step s c = (s', .ok d) → P s → P s') {s s' : DecoderState}
    {c c' : Cursor} (h : ctx.Steps s c s' c') (hs : P s) : P s' := by
  induction h with
  | refl s c => exact hs
  | head h rest ih => exact ih (hstep _ _ _ _ h hs)

theorem decode_of_run {body : List UInt8} {s : DecoderState} {error : Option Halt}
    (h : ctx.run .initial (.ofBytes body) = (s, error)) : ctx.decode body = ⟨s.tree, error⟩ := by
  unfold decode
  rw [h]

end DecodeContext

end Dxb
