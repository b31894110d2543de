import Dxb.Proofs.Program.Run

/-!
# What is recovered from a program that fails

A rejected body is some complete instructions and one that fails.  The tree that is reported is the
one that the complete instructions alone would have given, and no longer part of the body is read
without an error (`exists_split_of_error`).
-/

namespace Dxb.DecodeContext

variable {ctx : DecodeContext}

/-- Where an instruction fails, it fails for any part of the bytes behind it as well: bytes that are
missing never make an instruction succeed, and never make it panic. -/
theorem step_fault_of_prefix {s : DecoderState} {part more : List UInt8} {o : Nat} {e : DecodeError}
    (h : ctx.step s ⟨part ++ more, o⟩ = (s, .error (.fault e))) :
    ∃ e', ctx.step s ⟨part, o⟩ = (s, .error (.fault e')) := by
  have hmore : ∀ {i d}, (Instruction.read (s.depth < ctx.levels)).run ⟨part, o⟩ = (.ok i, d) →
      s.halt? o (ctx.effect s.depth i) = some (.fault e) := by
    intro i d hr
    obtain ⟨rest, o'⟩ := d
    obtain ⟨taken, hpart, -⟩ := Reader.exists_taken hr
    have hpart : part = taken ++ rest := hpart
    subst hpart
    have hbefore := Instruction.local_read _ _ _ _ _ _ hr (rest ++ more)
    rw [← List.append_assoc] at hbefore
    rcases (step_eq_error_iff.1 h).2 with ⟨e', d', hr', -⟩ | ⟨i', d', hr', hhalt⟩
    · rw [hbefore] at hr'
      cases hr'
    · rw [hbefore] at hr'
      cases hr'
      exact hhalt
  cases hread : (Instruction.read (s.depth < ctx.levels)).run ⟨part, o⟩ with
  | mk result d =>
    cases result with
    | error e' => exact ⟨e', step_eq_error_iff.2 ⟨rfl, .inl ⟨e', d, hread, rfl⟩⟩⟩
    | ok i => exact ⟨e, step_eq_error_iff.2 ⟨rfl, .inr ⟨i, d, hread, hmore hread⟩⟩⟩

/-- A body that is rejected is `p ++ q`, where `p` is read without an error and leads to the same
state, and the instruction at the start of `q` fails there with the error that is reported.  Every
part of the body longer than `p` is rejected too, with the same tree. -/
theorem exists_split_of_error (ctx : DecodeContext) (body : List UInt8) (e : DecodeError)
    (h : (ctx.decode body).error = some (.fault e)) :
    ∃ p q s, body = p ++ q ∧ q ≠ [] ∧
      ctx.Steps .initial ⟨body, 0⟩ s ⟨q, p.length⟩ ∧
      ctx.run .initial (.ofBytes body) = (s, some (.fault e)) ∧
      ctx.run .initial (.ofBytes p) = (s, none) ∧
      ctx.decode p = ⟨(ctx.decode body).tree, none⟩ ∧
      ctx.step s ⟨q, p.length⟩ = (s, .error (.fault e)) ∧
      ∀ longer, longer <+: body → p.length < longer.length →
        ∃ e', ctx.decode longer = ⟨(ctx.decode body).tree, some (.fault e')⟩ := by
  obtain ⟨⟨q, o⟩, hsteps, hend⟩ := exists_steps_run ctx .initial (.ofBytes body)
  cases hrun : ctx.run .initial (.ofBytes body) with
  | mk s error =>
    have hdecode := decode_of_run hrun
    rw [hdecode] at h
    dsimp only at h
    subst h
    rw [hrun] at hsteps hend
    rcases hend with ⟨-, hnone⟩ | ⟨hq, e', he', hfail⟩
    · cases hnone
    cases he'
    obtain ⟨p, hbody, ho⟩ := hsteps.exists_taken
    have hp : o = p.length := by simpa [Cursor.ofBytes] using ho
    subst hp
    have hbody : body = p ++ q := hbody
    -- the same instructions in front of any other bytes
    have hbefore : ∀ rest, ctx.Steps .initial ⟨p ++ rest, 0⟩ s ⟨rest, p.length⟩ :=
      fun rest => hsteps.before hbody rest
    have hpart : ctx.run .initial (.ofBytes p) = (s, none) := by
      have hp := (hbefore []).run_eq
      rw [List.append_nil] at hp
      rw [Cursor.ofBytes, hp, run_of_atEnd rfl]
    refine ⟨p, q, s, hbody, ?_, hsteps, rfl, hpart, ?_, hfail, ?_⟩
    · rintro rfl
      cases hq
    · rw [decode_of_run hpart, hdecode]
    · rintro longer ⟨more, hmore⟩ hlen
      obtain ⟨part, hpart'⟩ : ∃ part, longer = p ++ part := by
        have hprefix : p <+: longer :=
          List.prefix_of_prefix_length_le ⟨q, hbody.symm⟩ ⟨more, hmore⟩ (by omega)
        obtain ⟨part, hpart'⟩ := hprefix
        exact ⟨part, hpart'.symm⟩
      subst hpart'
      have hq' : q = part ++ more := by
        rw [hbody, List.append_assoc] at hmore
        exact (List.append_cancel_left hmore).symm
      rw [hq'] at hfail
      obtain ⟨e', hfail'⟩ := step_fault_of_prefix hfail
      have hnonempty : (⟨part, p.length⟩ : Cursor).atEnd = false := by
        cases part with
        | nil =>
          rw [List.append_nil] at hlen
          exact absurd hlen (Nat.lt_irrefl _)
        | cons b part => rfl
      have hrun' : ctx.run .initial (.ofBytes (p ++ part)) = (s, some (.fault e')) := by
        rw [Cursor.ofBytes, (hbefore part).run_eq, run_of_step_error hnonempty hfail']
      refine ⟨e', ?_⟩
      rw [decode_of_run hrun', hdecode]

/-- A closing bracket too many fails, and the scope before it stays. -/
theorem exists_split_of_extra_close :
    ∃ p q s, [0x02, 0x03, 0x03] = p ++ q ∧ q ≠ [] ∧
      (({} : Options).context 64).run .initial (.ofBytes p) = (s, none) ∧
      (({} : Options).context 64).step s ⟨q, p.length⟩ =
        (s, .error (.fault (.noParentScope 2))) := by
  let tree : TokenTree := ⟨#[⟨.root, #[.scope 1]⟩, ⟨.bracket .subscope, #[]⟩]⟩
  have hopen : (({} : Options).context 64).step .initial ⟨[0x02, 0x03, 0x03], 0⟩ =
      (⟨tree, [⟨1, none⟩]⟩, .ok ⟨[0x03, 0x03], 1⟩) := rfl
  have hclose : (({} : Options).context 64).step ⟨tree, [⟨1, none⟩]⟩ ⟨[0x03, 0x03], 1⟩ =
      (⟨tree, []⟩, .ok ⟨[0x03], 2⟩) := rfl
  have hextra : (({} : Options).context 64).step ⟨tree, []⟩ ⟨[0x03], 2⟩ =
      (⟨tree, []⟩, .error (.fault (.noParentScope 2))) := rfl
  have hrun : (({} : Options).context 64).run .initial (.ofBytes [0x02, 0x03, 0x03]) =
      (⟨tree, []⟩, some (.fault (.noParentScope 2))) := by
    rw [Cursor.ofBytes, run_of_step_ok rfl hopen, run_of_step_ok rfl hclose,
      run_of_step_error rfl hextra]
  obtain ⟨p, q, s, hbody, hq, -, -, hp, -, hfail, -⟩ :=
    exists_split_of_error (({} : Options).context 64) [0x02, 0x03, 0x03] (.noParentScope 2)
      (by rw [decode_of_run hrun])
  exact ⟨p, q, s, hbody, hq, hp, hfail⟩

end Dxb.DecodeContext
