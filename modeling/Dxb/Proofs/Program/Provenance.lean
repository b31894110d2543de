import Dxb.Proofs.Program.Options

/-!
# Where the tokens of a tree come from

Instructions only append tokens.  So what an instruction appends stays at its place until the end of
the program (`tokenAt_decode`), and every token of a decoded tree was appended by some instruction
(`exists_takes_of_tokenAt`).  The fragment that a token defers depends on nothing but that
instruction (`Instruction.bind_token?`).
-/

namespace Dxb

/-! ## Fragments -/

/-- The fragment that an instruction leaves to be written after the next token. -/
def Instruction.fragment? : Instruction → Option Deferred
  | assigned .extendedType (t, _) => if t.parameters then some .closeType else none
  | assigned .childSet _ => some .assign
  | assigned .childSetReference _ => some .assignReference
  | assigned .childAction (sign, _) => some (.action (Opcode.actionSign sign))
  | assigned .range _ => some .range
  | _ => none

theorem Effect.bind_token?_written (text? : Option String) (size : Nat) :
    ((written text?).token? size).bind Token.defer? = none := by
  cases text? <;> rfl

/-- What an instruction defers, the token that it appends carries. -/
theorem Instruction.bind_token? (o : Options) (nested : List UInt8 → Option String)
    (i : Instruction) (size : Nat) :
    ((i.effect o nested).token? size).bind Token.defer? = i.fragment? := by
  cases i with
  | unassigned byte => rfl
  | assigned op operands =>
    cases op with
    | time | quantity | scopeBlock | endpoint _ _ =>
      obtain ⟨text, heffect⟩ := Opcode.exists_written_of_judged o nested _ rfl operands
      rw [effect, heffect]
      exact Effect.bind_token?_written text size
    | _ => rfl

namespace DecodeContext

variable {ctx : DecodeContext} {s s' : DecoderState} {c c' : Cursor} {id place : Nat}
  {token : Token}

theorem defer?_of_token? {depth size : Nat} {i : Instruction}
    (h : (ctx.effect depth i).token? size = some token) : token.defer? = i.fragment? := by
  have hfragment : ((ctx.effect depth i).token? size).bind Token.defer? = i.fragment? :=
    i.bind_token? _ _ _
  rwa [h] at hfragment

/-! ## Forwards -/

theorem Takes.tokenAt {m : Moment} (h : ctx.Takes m s' c')
    (hcurrent : m.state.current < m.state.tree.size)
    (htoken : m.state.tree.tokenAt id place = some token) :
    s'.tree.tokenAt id place = some token := by
  rw [h.state_eq, DecoderState.tokenAt_apply hcurrent, if_neg]
  · exact htoken
  · rintro ⟨rfl, rfl⟩
    have hnone : m.state.tree.tokenAt m.state.current (m.state.tree.tokens m.state.current).size =
        none := Array.getElem?_size
    rw [hnone] at htoken
    cases htoken

/-- A token stays at its place. -/
theorem Steps.tokenAt (h : ctx.Steps s c s' c') (hs : s.tree.Grown ctx.levels s.path)
    (htoken : s.tree.tokenAt id place = some token) : s'.tree.tokenAt id place = some token := by
  induction h with
  | refl s c => exact htoken
  | head hstep rest ih =>
    obtain ⟨i, htakes⟩ := exists_takes_of_step hstep
    exact ih (grown_step hstep hs)
      (htakes.tokenAt (hs.open_lt _ (DecoderState.current_mem_path _)) htoken)

/-- What an instruction of a program appends is in the tree of the program. -/
theorem tokenAt_decode {body : List UInt8} {m : Moment}
    (hsteps : ctx.Steps .initial (.ofBytes body) m.state m.start) (htakes : ctx.Takes m s' c')
    (htoken : (ctx.effect m.state.depth m.instruction).token? m.state.tree.size = some token) :
    (ctx.decode body).tree.tokenAt m.state.current (m.state.tree.tokens m.state.current).size =
      some token := by
  have hgrown := grown_steps hsteps
  have hnew : s'.tree.tokenAt m.state.current (m.state.tree.tokens m.state.current).size =
      some token := by
    rw [htakes.state_eq, DecoderState.tokenAt_apply (current_lt_size hsteps), if_pos ⟨rfl, rfl⟩,
      htoken]
  have hrun : ctx.run .initial (.ofBytes body) = ctx.run s' c' :=
    (hsteps.concat htakes.step).run_eq
  obtain ⟨c'', hrest, -⟩ := exists_steps_run ctx s' c'
  rw [decode_of_run hrun]
  exact hrest.tokenAt (grown_step htakes.step hgrown) hnew

/-! ## Backwards -/

/-- A token was there before some instructions, or one of them appended it. -/
theorem Steps.origin (h : ctx.Steps s c s' c') (hs : s.tree.Grown ctx.levels s.path)
    (htoken : s'.tree.tokenAt id place = some token) :
    s.tree.tokenAt id place = some token ∨ ∃ m t d, ctx.Steps s c m.state m.start ∧
      ctx.Takes m t d ∧ m.state.current = id ∧ (m.state.tree.tokens id).size = place ∧
      (ctx.effect m.state.depth m.instruction).token? m.state.tree.size = some token := by
  induction h with
  | refl s c => exact .inl htoken
  | @head s s₁ s' c c₁ c' hstep rest ih =>
    rcases ih (grown_step hstep hs) htoken with hbefore | ⟨m, t, d, hsteps, hlater⟩
    · obtain ⟨i, htakes⟩ := exists_takes_of_step hstep
      have hcurrent : s.current < s.tree.size := hs.open_lt _ s.current_mem_path
      rw [htakes.state_eq, DecoderState.tokenAt_apply hcurrent] at hbefore
      split at hbefore
      · rename_i hnew
        obtain ⟨rfl, rfl⟩ := hnew
        exact .inr ⟨⟨s, c, i⟩, s₁, c₁, .refl s c, htakes, rfl, rfl, hbefore⟩
      · exact .inl hbefore
    · exact .inr ⟨m, t, d, .head hstep hsteps, hlater⟩

/-- Every token of a decoded tree was appended by an instruction of the program. -/
theorem exists_takes_of_tokenAt {body : List UInt8}
    (h : (ctx.decode body).tree.tokenAt id place = some token) :
    ∃ m t d, ctx.Steps .initial (.ofBytes body) m.state m.start ∧ ctx.Takes m t d ∧
      m.state.current = id ∧ (m.state.tree.tokens id).size = place ∧
      (ctx.effect m.state.depth m.instruction).token? m.state.tree.size = some token := by
  obtain ⟨c', hsteps, -⟩ := exists_steps_run ctx .initial (.ofBytes body)
  rw [decode_of_run rfl] at h
  rcases hsteps.origin (TokenTree.Grown.empty ctx.levels) h with hempty | hfound
  · have hnone : TokenTree.empty.tokenAt id place = none := by
      cases id <;> simp [TokenTree.empty, TokenTree.tokenAt, TokenTree.tokens]
    have hempty : TokenTree.empty.tokenAt id place = some token := hempty
    rw [hnone] at hempty
    cases hempty
  · exact hfound

end DecodeContext

end Dxb
