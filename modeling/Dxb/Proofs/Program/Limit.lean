import Dxb.Proofs.Program.Unguarded

/-!
# Programs that stay within the nesting limit

What is around a nested program decides only how many levels are left for it.  A program that meets
the limit nowhere, neither in itself nor in a program nested in it (`MeetsLimit`), never asks for
more levels than it has: with any more of them it is read in the same way, and its text is the same
(`decompileWithin_of_le`).  So a nested program reads as it does alone (`nested_program_text`).
-/

namespace Dxb

/-! ## Instructions that are refused -/

/-- Room matters only where an instruction is refused for the lack of it. -/
theorem Instruction.read_eq_or_too_deep (c : Cursor) :
    (Instruction.read false).run c = (Instruction.read true).run c ∨
      c.atEnd = false ∧
        ((Instruction.read false).run c).1 = .error (.tooDeep c.offset maxDepth) := by
  unfold Instruction.read
  simp only [Reader.run_bind, Reader.run_position]
  cases hbyte : Reader.uint8.run c with
  | mk result d =>
    cases result with
    | error e => exact .inl rfl
    | ok byte =>
      dsimp only
      unfold Instruction.readRest
      split
      · exact .inl rfl
      · rename_i op _
        cases hn : op.nests with
        | false => exact .inl rfl
        | true =>
          refine .inr ⟨?_, rfl⟩
          obtain ⟨rest, o⟩ := c
          cases rest with
          | nil => simp [Reader.uint8, Reader.number, Reader.run_bind, Reader.bytes] at hbyte
          | cons b rest => rfl

/-- Decompiling stops at the nesting limit, in the program itself or in one nested in it. -/
inductive MeetsLimit (o : Options) : (levels : Nat) → (body : List UInt8) → Prop
  | here {levels : Nat} {body : List UInt8} {offset limit : Nat}
      (h : ((o.context levels).decode body).error = some (.fault (.tooDeep offset limit))) :
      MeetsLimit o levels body
  | inside {levels : Nat} {body program : List UInt8} {s : DecoderState} {c : Cursor}
      (hsteps : (o.context levels).Steps .initial (.ofBytes body) s c)
      (hmeets : (o.context levels).Meets s c (.assigned .scopeBlock (program, ())))
      (h : MeetsLimit o (levels - s.depth - 1) program) : MeetsLimit o levels body

namespace MeetsLimit

variable {o : Options} {levels : Nat} {body : List UInt8} {s : DecoderState} {c : Cursor}

/-- An instruction that is refused for lack of room ends the program at the limit. -/
theorem of_refused (hsteps : (o.context levels).Steps .initial (.ofBytes body) s c)
    (hmore : c.atEnd = false) {offset limit : Nat}
    (h : ((Instruction.read (s.depth < levels)).run c).1 = .error (.tooDeep offset limit)) :
    MeetsLimit o levels body := by
  have hstep : (o.context levels).step s c = (s, .error (.fault (.tooDeep offset limit))) :=
    DecodeContext.step_eq_error_iff.2 ⟨rfl, .inl ⟨_, _, Prod.ext h rfl, rfl⟩⟩
  have hrun : (o.context levels).run .initial (.ofBytes body) =
      (s, some (.fault (.tooDeep offset limit))) :=
    hsteps.run_eq.trans (DecodeContext.run_of_step_error hmore hstep)
  exact .here (congrArg Decoded.error (DecodeContext.decode_of_run hrun))

/-- A program of known instructions that is read completely meets the limit only in what is nested
in these. -/
theorem of_trace {ms : List Moment} {s' : DecoderState} {c' : Cursor}
    (h : (o.context levels).Trace .initial (.ofBytes body) ms s' c') (hend : c'.atEnd = true)
    (hmeets : MeetsLimit o levels body) :
    ∃ m ∈ ms, ∃ program, m.instruction.program? = some program ∧
      MeetsLimit o (levels - m.state.depth - 1) program := by
  cases hmeets with
  | here herror =>
    have hrun : (o.context levels).run .initial (.ofBytes body) = (s', none) :=
      h.steps.run_eq.trans (DecodeContext.run_of_atEnd hend)
    rw [DecodeContext.decode_of_run hrun] at herror
    cases herror
  | inside hsteps hmet hnested => exact ⟨_, h.mem_of_steps hend hsteps hmet, _, rfl, hnested⟩

end MeetsLimit

/-! ## More levels -/

/-- Where a program meets the limit nowhere, a decoder with more levels does the same, if it gives
the programs nested in it the same texts. -/
theorem lockstep_more {o : Options} {levels more : Nat} {body : List UInt8} (hle : levels ≤ more)
    (h : ¬ MeetsLimit o levels body)
    (hnested : ∀ depth program, depth < levels → ¬ MeetsLimit o (levels - depth - 1) program →
      decompileWithin o (more - depth - 1) program =
        decompileWithin o (levels - depth - 1) program) :
    DecodeContext.Lockstep (o.context levels) (o.context more) fun s c t =>
      t = s ∧ (o.context levels).Steps .initial (.ofBytes body) s c := by
  have heffect : ∀ {s c i}, (o.context levels).Steps .initial (.ofBytes body) s c →
      (o.context levels).Meets s c i →
      (o.context more).effect s.depth i = (o.context levels).effect s.depth i := by
    intro s c i hsteps hmeets
    have hroom : i.nests = true → s.depth < levels := hmeets.room
    rw [o.effect_context hroom, o.effect_context fun hn => Nat.lt_of_lt_of_le (hroom hn) hle]
    apply Instruction.effect_congr
    intro program hprogram
    have hi := Instruction.eq_of_program? hprogram
    subst hi
    exact hnested s.depth program (hroom rfl) fun hlimit => h (.inside hsteps hmeets hlimit)
  refine ⟨?_, ?_, ?_, ?_⟩
  · rintro _ c s ⟨rfl, hsteps⟩
    rw [o.levels_context, o.levels_context]
    by_cases hroom : s.depth < levels
    · rw [decide_eq_true hroom, decide_eq_true (Nat.lt_of_lt_of_le hroom hle)]
    rw [decide_eq_false hroom]
    by_cases hmore : s.depth < more
    · rw [decide_eq_true hmore]
      rcases Instruction.read_eq_or_too_deep c with hread | ⟨hc, hread⟩
      · exact hread.symm
      · rw [← decide_eq_false hroom] at hread
        exact absurd (MeetsLimit.of_refused hsteps hc hread) h
    · rw [decide_eq_false hmore]
  · rintro _ c s ⟨rfl, -⟩
    rfl
  · rintro _ c s i ⟨rfl, hsteps⟩ hmeets
    rw [heffect hsteps hmeets]
  · rintro _ c s i s' c' ⟨rfl, hsteps⟩ htakes
    rw [heffect hsteps htakes.meets]
    exact ⟨htakes.state_eq.symm, hsteps.concat htakes.step⟩

/-- A program that meets the limit nowhere reads the same with more levels. -/
theorem decompileWithin_of_le {o : Options} {levels more : Nat} {body : List UInt8}
    (h : ¬ MeetsLimit o levels body) (hle : levels ≤ more) :
    decompileWithin o more body = decompileWithin o levels body := by
  induction hn : levels using Nat.strongRecOn generalizing levels more body with
  | ind n ih =>
    subst hn
    have hlockstep := lockstep_more hle h fun depth program hdepth hnested =>
      ih (levels - depth - 1) (by omega) hnested (by omega) rfl
    have hdecode : (o.context more).decode body = (o.context levels).decode body :=
      hlockstep.decode_eq And.left ⟨rfl, .refl _ _⟩
    rw [decompileWithin_eq_script, decompileWithin_eq_script, hdecode]

/-! ## Without a header -/

theorem Instruction.effect_withHeader (o : Options) (header : Bool)
    (nested : List UInt8 → Option String) (i : Instruction) :
    i.effect { o with hasHeader := header } nested = i.effect o nested := by
  cases i with
  | unassigned byte => rfl
  | assigned op operands => cases op <;> rfl

/-- Whether a header stands before a message plays no part in decompiling a body. -/
theorem decompileWithin_withHeader (o : Options) (header : Bool) (levels : Nat)
    (body : List UInt8) :
    decompileWithin { o with hasHeader := header } levels body = decompileWithin o levels body := by
  induction hn : levels using Nat.strongRecOn generalizing levels body with
  | ind n ih =>
    subst hn
    have hdecode : (Options.context { o with hasHeader := header } levels).decode body =
        (o.context levels).decode body := by
      refine DecodeContext.decode_congr ?_ ?_ body
      · rfl
      intro s c i hmeets
      have hroom : i.nests = true → s.depth < levels := hmeets.room
      rw [Options.effect_context _ hroom, o.effect_context hroom, Instruction.effect_withHeader]
      apply Instruction.effect_congr
      intro program hprogram
      have hdepth := hroom (Instruction.nests_of_program? hprogram)
      exact ih _ (by omega) _ program rfl
    rw [decompileWithin_eq_script, decompileWithin_eq_script, hdecode]

theorem decompile_withoutHeader (o : Options) (body : List UInt8) :
    decompile { o with hasHeader := false } body =
      decompileWithin o Instruction.maxDepth body :=
  decompileWithin_withHeader o false Instruction.maxDepth body

/-- A block with a program that is read completely can be applied. -/
theorem Options.applies_program {o : Options} {levels : Nat} {s s' : DecoderState} {c' : Cursor}
    {start : Nat} {program : List UInt8} (hsteps : (o.context (levels - s.depth - 1)).Steps .initial
      (.ofBytes program) s' c') (hend : c'.atEnd = true) (hroom : s.depth < levels) :
    s.halt? start ((o.context levels).effect s.depth (.assigned .scopeBlock (program, ()))) =
      none := by
  have hrun := hsteps.run_eq.trans (DecodeContext.run_of_atEnd hend)
  have htext : decompileWithin o (levels - s.depth - 1) program ≠ none := by
    rw [Ne, decompileWithin_eq_none_iff, DecodeContext.decode_of_run hrun]
    nofun
  rw [o.effect_context fun _ => hroom]
  refine DecoderState.halt?_eq_none_iff.2 ⟨fun h => ?_, fun h => ?_⟩
  · cases (Instruction.effect_eq_panics_iff _ _ _).1 h with
    | program h => exact htext h
  · cases (Instruction.effect_eq_closes_iff _ _ _).1 h

/-- A program that is nested at some depth within the limit, and meets the limit nowhere, has the
text that it has alone, or panics as it does alone.  So a nested program is written as its own text
in parentheses, whatever programs and scopes are around it. -/
theorem nested_program_text (o : Options) :
    (∀ depth body, depth ≤ Instruction.maxDepth →
      ¬ MeetsLimit o (Instruction.maxDepth - depth) body →
      decompileWithin o (Instruction.maxDepth - depth) body =
        decompile { o with hasHeader := false } body) ∧
    ∀ levels s c s' c' body, levels ≤ Instruction.maxDepth →
      (o.context levels).Takes ⟨s, c, .assigned .scopeBlock (body, ())⟩ s' c' →
      ¬ MeetsLimit o (levels - s.depth - 1) body →
      ∃ text, decompile { o with hasHeader := false } body = some text ∧
        s'.tree = s.tree.push s.current (.value ("(" ++ text ++ ")") none) := by
  have halone : ∀ levels body, levels ≤ Instruction.maxDepth → ¬ MeetsLimit o levels body →
      decompileWithin o levels body = decompile { o with hasHeader := false } body := by
    intro levels body hle h
    rw [decompile_withoutHeader, decompileWithin_of_le h hle]
  refine ⟨fun depth body _ h => halone _ body (Nat.sub_le _ _) h, ?_⟩
  intro levels s c s' c' body hle htakes h
  have heffect : (o.context levels).effect s.depth (.assigned .scopeBlock (body, ())) =
      .written ((decompileWithin o (levels - s.depth - 1) body).map fun text =>
        "(" ++ text ++ ")") :=
    o.effect_context htakes.room
  have hwritten := (DecoderState.halt?_eq_none_iff.1 htakes.applies).1
  have hstate := htakes.state_eq
  dsimp only at hwritten hstate
  rw [heffect, halone _ body (by omega) h] at hwritten hstate
  cases htext : decompile { o with hasHeader := false } body with
  | none =>
    rw [htext] at hwritten
    exact absurd rfl hwritten
  | some text =>
    rw [htext] at hstate
    exact ⟨text, rfl, congrArg DecoderState.tree hstate⟩

/-- A block at the last level that there is, with a number in it, and the same block one level
further in. -/
theorem nested_program_text_at_last_level :
    let block : List UInt8 := [0xcb, 2, 0, 0, 0, 0xc1, 7]
    let outer : List UInt8 := [0xcb, 7, 0, 0, 0, 0xcb, 2, 0, 0, 0, 0xc1, 7]
    ¬ MeetsLimit {} (Instruction.maxDepth - 63) block ∧
      decompileWithin {} (Instruction.maxDepth - 63) block =
        decompile ⟨true, false, false, false⟩ block ∧
      ∃ s' text, (Options.context {} 2).step .initial (.ofBytes outer) = (s', .ok ⟨[], 12⟩) ∧
        decompile ⟨true, false, false, false⟩ block = some text ∧
        s'.tree = TokenTree.empty.push TokenTree.root (.value ("(" ++ text ++ ")") none) := by
  intro block outer
  have hseven : (Options.context {} 0).Takes
      ⟨.initial, .ofBytes [0xc1, 7], .assigned .int8 (7, ())⟩ _ ⟨[], 2⟩ := ⟨rfl, rfl, rfl⟩
  have hreadSeven := DecodeContext.Trace.cons hseven (.nil _ _)
  have hnumber : ¬ MeetsLimit {} 0 [0xc1, 7] := by
    intro h
    obtain ⟨m, hm, program, hprogram, -⟩ := h.of_trace hreadSeven rfl
    cases List.mem_singleton.1 hm
    cases hprogram
  have hinner : (Options.context {} 1).Takes
      ⟨.initial, .ofBytes block, .assigned .scopeBlock ([0xc1, 7], ())⟩ _ ⟨[], 7⟩ :=
    ⟨rfl, Options.applies_program hreadSeven.steps rfl (by decide), rfl⟩
  have hread := DecodeContext.Trace.cons hinner (.nil _ _)
  have hblock : ¬ MeetsLimit {} 1 block := by
    intro h
    obtain ⟨m, hm, program, hprogram, hmeets⟩ := h.of_trace hread rfl
    cases List.mem_singleton.1 hm
    cases hprogram
    exact hnumber hmeets
  have htakes : (Options.context {} 2).Takes
      ⟨.initial, .ofBytes outer, .assigned .scopeBlock (block, ())⟩ _ ⟨[], 12⟩ :=
    ⟨rfl, Options.applies_program hread.steps rfl (by decide), rfl⟩
  obtain ⟨hnested, hbody⟩ := nested_program_text {}
  obtain ⟨text, htext, htree⟩ := hbody 2 _ _ _ _ block (by decide) htakes hblock
  exact ⟨hblock, hnested 63 block (by decide) hblock, _, text, htakes.step, htext, htree⟩

end Dxb
