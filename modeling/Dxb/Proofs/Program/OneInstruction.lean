import Dxb.Proofs.Program.Edits
import Dxb.Proofs.Program.Sequence

/-!
# Programs that differ in one instruction

A program `p` that is read completely leads to a state, whichever scopes are open then.  One
instruction later that state differs only in the tokens of its current scope, if the instruction
neither opens nor closes a scope; and how many of its bytes there were decides nothing but the
offsets behind it (`decode_append_layout`).  So what follows is decoded in the same way behind
another operand (`operand_contained`), unless that panics, and behind an instruction that was not
there before (`inserted_byte`).
-/

namespace Dxb

theorem Halt.moved_moved (h : Halt) (j k : Nat) : (h.moved j).moved k = h.moved (j + k) := by
  cases h with
  | fault e => cases e <;> simp only [moved, DecodeError.moved, Nat.add_assoc]
  | panic => rfl

theorem DecodeError.offset_moved (e : DecodeError) (k : Nat) :
    (e.moved k).offset = e.offset + k := by
  cases e <;> rfl

namespace DecodeContext

variable {ctx : DecodeContext} {p bytes : List UInt8} {s : DecoderState} {i : Instruction}

/-! ## Behind a program that is read completely -/

theorem current_lt_size_of_run {error : Option Halt}
    (hp : ctx.run .initial (.ofBytes p) = (s, error)) : s.current < s.tree.size := by
  obtain ⟨c', hsteps, -⟩ := exists_steps_run ctx .initial (.ofBytes p)
  rw [hp] at hsteps
  exact current_lt_size hsteps

/-- What is decoded behind a program goes on from the state that it leads to. -/
theorem decode_append_eq (hp : ctx.run .initial (.ofBytes p) = (s, none)) (q : List UInt8) :
    ctx.decode (p ++ q) = ⟨(ctx.run s (.ofBytes q)).1.tree,
      (ctx.run s (.ofBytes q)).2.map (Halt.moved p.length)⟩ := by
  have hcursor : (⟨q, p.length⟩ : Cursor) = (Cursor.ofBytes q).moved p.length := by
    simp [Cursor.moved, Cursor.ofBytes]
  apply decode_of_run
  rw [run_append hp, hcursor, run_moved]

/-- What is decoded behind a program and one more instruction goes on from where that leads to. -/
theorem decode_append_layout (hp : ctx.run .initial (.ofBytes p) = (s, none))
    (h : i.Layout bytes) (hnone : ctx.obstacle? s i 0 = none) (q : List UInt8) :
    let after := ctx.run (s.apply (ctx.effect s.depth i)) (.ofBytes q)
    ctx.decode (p ++ (bytes ++ q)) =
      ⟨after.1.tree, after.2.map (Halt.moved (p.length + bytes.length))⟩ := by
  intro after
  have htakes := ctx.takes_of_layout h hnone q
  have hcursor : (⟨q, 0 + bytes.length⟩ : Cursor) = (Cursor.ofBytes q).moved bytes.length := rfl
  have hrun : ctx.run s (.ofBytes (bytes ++ q)) =
      (after.1, after.2.map (Halt.moved bytes.length)) := by
    rw [Cursor.ofBytes, run_of_step_ok (atEnd_eq_false_of_step htakes.step) htakes.step, hcursor,
      run_moved]
  rw [decode_append_eq hp, hrun, Option.map_map]
  congr 2
  funext e
  rw [Function.comp_apply, Halt.moved_moved, Nat.add_comm]

/-- An instruction that meets an obstacle behind a program is where the whole ends. -/
theorem decode_append_obstacle (hp : ctx.run .initial (.ofBytes p) = (s, none))
    (h : i.Layout bytes) {e : Halt} (he : ctx.obstacle? s i 0 = some e) (q : List UInt8) :
    ctx.decode (p ++ (bytes ++ q)) = ⟨s.tree, some (e.moved p.length)⟩ := by
  have hmore := (⟨i, bytes, h⟩ : Encoded).atEnd_eq_false q 0
  rw [decode_append_eq hp, Cursor.ofBytes, run_of_step_error hmore (ctx.step_of_obstacle h he q)]
  rfl

/-- Instructions that append a token each lead to the same tokens behind it. -/
theorem exists_decode_appending (ctx : DecodeContext)
    (hp : ctx.run .initial (.ofBytes p) = (s, none)) (counts : Bool) (q : List UInt8) :
    let before := s.tree.tokens s.current
    let scopes := if counts then completeMember s.openScopes else s.openScopes
    let after := ctx.run ⟨s.tree, scopes⟩ (.ofBytes q)
    s.current < after.1.tree.size ∧ ∃ later, after.1.tree.tokens s.current = before ++ later ∧
      ∀ i bytes token, i.Layout bytes → (i.nests = true → s.depth < ctx.levels) →
        ctx.effect s.depth i = .append token counts →
        ctx.decode (p ++ (bytes ++ q)) =
          ⟨after.1.tree.withTokens s.current (before.push token ++ later),
            after.2.map (Halt.moved (p.length + bytes.length))⟩ := by
  intro before scopes after
  have hcurrent : s.current < s.tree.size := current_lt_size_of_run hp
  obtain ⟨hsize, later, htokens, hrun⟩ :=
    exists_run_withTokens ctx (s := ⟨s.tree, scopes⟩) hcurrent (.ofBytes q)
  refine ⟨hsize, later, htokens, ?_⟩
  intro i bytes token h hroom heffect
  have hnone : ctx.obstacle? s i 0 = none :=
    ctx.obstacle?_eq_none_iff.2 ⟨hroom, heffect ▸ rfl⟩
  rw [decode_append_layout hp h hnone q, heffect, DecoderState.apply_append, hrun]
  rfl

/-! ## Another operand -/

/-- An operand that does not panic gives a value, if only one that says what is wrong with it. -/
theorem exists_value_of_judged {op : Opcode} (h : op.judged = true) (x : Operands op.operands)
    {depth : Nat}
    (hx : ¬ (Instruction.assigned op x).Panics (ctx.nested (ctx.levels - depth - 1))) :
    ∃ text, ctx.effect depth (.assigned op x) = .value text := by
  obtain ⟨text, heffect⟩ := op.exists_written_of_judged ctx.options
    (ctx.nested (ctx.levels - depth - 1)) h x
  cases text with
  | none => exact absurd ((Instruction.effect_eq_panics_iff _ _ (.assigned op x)).1 heffect) hx
  | some text => exact ⟨text, heffect⟩

/-- Behind a program, an opcode whose operand is judged after it was read gives one value, whatever
the operand is, and what follows is decoded in the same way, as behind any value.  Only where no
level is left for a nested program do both programs end, and a program ends in a panic where its
operand cannot be written. -/
theorem operand_contained (ctx : DecodeContext)
    (hp : ctx.run .initial (.ofBytes p) = (s, none)) {op : Opcode} (hop : op.judged = true)
    {x y : Operands op.operands} {a b : List UInt8} (ha : Operands.Layout op.operands x a)
    (hb : Operands.Layout op.operands y b) (q : List UInt8) :
    let first := ctx.decode (p ++ (op.byte :: a ++ q))
    let second := ctx.decode (p ++ (op.byte :: b ++ q))
    let before := s.tree.tokens s.current
    let error := (ctx.run ⟨s.tree, completeMember s.openScopes⟩ (.ofBytes q)).2
    let Panics (z : Operands op.operands) : Prop :=
      (Instruction.assigned op z).Panics (ctx.nested (ctx.levels - s.depth - 1))
    (op.nests = true ∧ ctx.levels ≤ s.depth ∧ second = first ∧
      first = ⟨s.tree, some (.fault (.tooDeep p.length Instruction.maxDepth))⟩) ∨
    (Panics x → first = ⟨s.tree, some .panic⟩) ∧ (Panics y → second = ⟨s.tree, some .panic⟩) ∧
    (¬ Panics x → ¬ Panics y → ∃ (text text' : String) (later : Array Token),
      ctx.effect s.depth (.assigned op x) = .value text ∧
      ctx.effect s.depth (.assigned op y) = .value text' ∧
      s.current < first.tree.size ∧
      first.tree.tokens s.current = before.push (.value text none) ++ later ∧
      second.tree =
        first.tree.withTokens s.current (before.push (.value text' none) ++ later) ∧
      first.error = error.map (Halt.moved (p.length + 1 + a.length)) ∧
      second.error = error.map (Halt.moved (p.length + 1 + b.length))) := by
  intro first second before error Panics
  have hlayout : ∀ {z : Operands op.operands} {c : List UInt8}, Operands.Layout op.operands z c →
      (Instruction.assigned op z).Layout (op.byte :: c) := fun h => ⟨_, rfl, h⟩
  by_cases hdeep : op.nests = true ∧ ctx.levels ≤ s.depth
  · left
    have hstop : ∀ {z : Operands op.operands} {c : List UInt8}, Operands.Layout op.operands z c →
        ctx.decode (p ++ (op.byte :: c ++ q)) =
          ⟨s.tree, some (.fault (.tooDeep p.length Instruction.maxDepth))⟩ := by
      intro z c h
      have hobstacle : ctx.obstacle? s (.assigned op z) 0 =
          some (.fault (.tooDeep 0 Instruction.maxDepth)) := if_pos hdeep
      rw [decode_append_obstacle hp (hlayout h) hobstacle q, Halt.moved, DecodeError.moved,
        Nat.zero_add]
    exact ⟨hdeep.1, hdeep.2, (hstop hb).trans (hstop ha).symm, hstop ha⟩
  · right
    have hroom : op.nests = true → s.depth < ctx.levels :=
      fun hn => Nat.lt_of_not_le fun hle => hdeep ⟨hn, hle⟩
    have hpanic : ∀ {z : Operands op.operands} {c : List UInt8}, Operands.Layout op.operands z c →
        Panics z → ctx.decode (p ++ (op.byte :: c ++ q)) = ⟨s.tree, some .panic⟩ := by
      intro z c h hz
      exact decode_append_obstacle hp (hlayout h) (ctx.obstacle?_eq_panic_iff.2 ⟨hroom, hz⟩) q
    refine ⟨hpanic ha, hpanic hb, fun hx hy => ?_⟩
    obtain ⟨hsize, later, -, hdecode⟩ := exists_decode_appending ctx hp true q
    obtain ⟨text, htext⟩ := exists_value_of_judged hop x hx
    obtain ⟨text', htext'⟩ := exists_value_of_judged hop y hy
    have hfirst := hdecode _ _ _ (hlayout ha) hroom htext
    have hsecond := hdecode _ _ _ (hlayout hb) hroom htext'
    have hoffset (c : List UInt8) : p.length + (op.byte :: c).length = p.length + 1 + c.length := by
      rw [List.length_cons]
      omega
    rw [hoffset] at hfirst hsecond
    have hfirstTree := congrArg Decoded.tree hfirst
    refine ⟨text, text', later, htext, htext', ?_, ?_, ?_, congrArg Decoded.error hfirst,
      congrArg Decoded.error hsecond⟩
    · rw [hfirstTree, TokenTree.size_withTokens]
      exact hsize
    · rw [hfirstTree, TokenTree.tokens_withTokens hsize]
    · rw [hfirstTree, TokenTree.withTokens_withTokens]
      exact congrArg Decoded.tree hsecond

/-- In an open bracket, five over one and then one over nothing, each before a number and a bracket
too many. -/
theorem operand_contained_of_zero_denominator :
    let ctx := ({} : Options).context 64
    let rest : List UInt8 := [0xc1, 7, 0x03, 0x03]
    let first := ctx.decode ([0x02] ++ ([0xcc, 1, 1, 0, 1, 0, 5, 1, 0] ++ rest))
    let second := ctx.decode ([0x02] ++ ([0xcc, 1, 1, 0, 0, 0, 1, 0] ++ rest))
    ∃ (text : String) (later : Array Token),
      first.tree.tokens 1 = #[.value text none] ++ later ∧
      second.tree = first.tree.withTokens 1
        (#[.value "/* ERROR: quantity denominator is zero */" none] ++ later) ∧
      first.error = some (.fault (.noParentScope 13)) ∧
      second.error = some (.fault (.noParentScope 12)) := by
  intro ctx rest first second
  let tree (tokens : Array Token) : TokenTree :=
    ⟨#[⟨.root, #[.scope 1]⟩, ⟨.bracket .subscope, tokens⟩]⟩
  have hp : ctx.run .initial (.ofBytes [0x02]) = (⟨tree #[], [⟨1, none⟩]⟩, none) := by
    have hopen : ctx.step .initial ⟨[0x02], 0⟩ = (⟨tree #[], [⟨1, none⟩]⟩, .ok ⟨[], 1⟩) := rfl
    rw [Cursor.ofBytes, run_of_step_ok rfl hopen, run_of_atEnd rfl]
  have hfive : Operands.Layout [.quantity] (⟨1, [5], [1], []⟩, ()) [1, 1, 0, 1, 0, 5, 1, 0] :=
    Operands.layout_write [.quantity] _ ⟨⟨by decide, by decide, by decide⟩, trivial⟩
  have hnothing : Operands.Layout [.quantity] (⟨1, [1], [], []⟩, ()) [1, 1, 0, 0, 0, 1, 0] :=
    Operands.layout_write [.quantity] _ ⟨⟨by decide, by decide, by decide⟩, trivial⟩
  have hrest : (ctx.run ⟨tree #[], [⟨1, none⟩]⟩ (.ofBytes rest)).2 =
      some (.fault (.noParentScope 3)) := by
    let seven := tree #[.value "7" none]
    have hseven : ctx.step ⟨tree #[], [⟨1, none⟩]⟩ ⟨[0xc1, 7, 0x03, 0x03], 0⟩ =
        (⟨seven, [⟨1, none⟩]⟩, .ok ⟨[0x03, 0x03], 2⟩) := rfl
    have hclose : ctx.step ⟨seven, [⟨1, none⟩]⟩ ⟨[0x03, 0x03], 2⟩ =
        (⟨seven, []⟩, .ok ⟨[0x03], 3⟩) := rfl
    have hextra : ctx.step ⟨seven, []⟩ ⟨[0x03], 3⟩ =
        (⟨seven, []⟩, .error (.fault (.noParentScope 3))) := rfl
    rw [Cursor.ofBytes, run_of_step_ok rfl hseven, run_of_step_ok rfl hclose,
      run_of_step_error rfl hextra]
  have hjudged : Opcode.quantity.judged = true := rfl
  have hfive' : ¬ (Instruction.assigned .quantity (⟨1, [5], [1], []⟩, ())).Panics (ctx.nested 62) :=
    fun h => absurd ((Instruction.effect_eq_panics_iff {} _ _).2 h) (by decide +kernel)
  have hnothing' : ¬ (Instruction.assigned .quantity (⟨1, [1], [], []⟩, ())).Panics
      (ctx.nested 62) :=
    fun h => absurd ((Instruction.effect_eq_panics_iff {} _ _).2 h) (by decide +kernel)
  rcases operand_contained ctx hp hjudged hfive hnothing rest with ⟨hnests, -⟩ | ⟨-, -, hvalues⟩
  · cases hnests
  · obtain ⟨text, text', later, -, htext, -, htokens, htree, hfirst, hsecond⟩ :=
      hvalues hfive' hnothing'
    have hzero : Effect.valueError "quantity denominator is zero" = .value text' := htext
    cases hzero
    exact ⟨text, later, htokens, htree, hfirst.trans (congrArg _ hrest),
      hsecond.trans (congrArg _ hrest)⟩

/-- One that is halved 65535 times panics where one over one is decoded. -/
theorem panic_of_operand :
    let ctx := ({} : Options).context 64
    ∃ a b, Operands.Layout [.quantity] (.halved 8191, ()) a ∧
      Operands.Layout [.quantity] (⟨1, [1], [1], []⟩, ()) b ∧
      (ctx.decode (Opcode.quantity.byte :: a)).error = some .panic ∧
      ctx.decode (Opcode.quantity.byte :: b) = ⟨⟨#[⟨.root, #[.value "1x" none]⟩]⟩, none⟩ := by
  intro ctx
  have hp : ctx.run .initial (.ofBytes []) = (.initial, none) := run_of_atEnd rfl
  have hhalved : Operands.Layout [.quantity] (.halved 8191, ()) _ :=
    Operands.layout_write [.quantity] _ (Instruction.fits_halved (by decide))
  have hone : Operands.Layout [.quantity] (⟨1, [1], [1], []⟩, ()) [1, 1, 0, 1, 0, 1, 1, 0] :=
    Operands.layout_write [.quantity] _ ⟨⟨by decide, by decide, by decide⟩, trivial⟩
  refine ⟨_, _, hhalved, hone, ?_, ?_⟩
  · have hpanics : (Instruction.halved 8191).Panics (ctx.nested 63) :=
      Instruction.panics_halved (by decide) (by decide) _
    have hobstacle : ctx.obstacle? .initial (.halved 8191) 0 = some .panic :=
      ctx.obstacle?_eq_panic_iff.2 ⟨nofun, hpanics⟩
    have hlayout : (Instruction.halved 8191).Layout (Opcode.quantity.byte :: _) :=
      ⟨_, rfl, hhalved⟩
    have hdecode := decode_append_obstacle hp hlayout hobstacle []
    rw [List.append_nil, List.nil_append] at hdecode
    exact congrArg Decoded.error hdecode
  · have hstep : ctx.step .initial ⟨[0xcc, 1, 1, 0, 1, 0, 1, 1, 0], 0⟩ =
        (⟨⟨#[⟨.root, #[.value "1x" none]⟩]⟩, []⟩, .ok ⟨[], 9⟩) := rfl
    exact decode_of_run ((run_of_step_ok rfl hstep).trans (run_of_atEnd rfl))

/-! ## Another instruction -/

/-- Between two programs, an instruction of the cache leaves no trace, and a byte that no opcode has
leaves one operator where it stands.  What is behind it is decoded as without it, and an error there
is noticed one byte further on. -/
theorem inserted_byte (ctx : DecodeContext) (hp : ctx.run .initial (.ofBytes p) = (s, none))
    (q : List UInt8) :
    let whole := ctx.decode (p ++ q)
    let before := s.tree.tokens s.current
    (∀ op : Opcode, op = .cachePoint ∨ op = .cacheReset →
      ctx.decode (p ++ op.byte :: q) = ⟨whole.tree, whole.error.map (Halt.moved 1)⟩) ∧
    (s.current < whole.tree.size ∧ ∃ later, whole.tree.tokens s.current = before ++ later ∧
      ∀ byte, Opcode.ofByte? byte = none →
        let note := Token.operator ("/*" ++ Literal.hex byte.toNat ++ "*/") none
        ctx.decode (p ++ byte :: q) =
          ⟨whole.tree.withTokens s.current (before.push note ++ later),
            whole.error.map (Halt.moved 1)⟩) ∧
    ∀ e, whole.error = some (.fault e) → p.length ≤ e.offset := by
  intro whole before
  have hwhole : whole = _ := decode_append_eq hp q
  have herror : whole.error.map (Halt.moved 1) =
      (ctx.run s (.ofBytes q)).2.map (Halt.moved (p.length + 1)) := by
    rw [hwhole, Option.map_map]
    congr 1
    funext h
    exact h.moved_moved p.length 1
  refine ⟨?_, ?_, ?_⟩
  · intro op hop
    rw [herror, hwhole]
    rcases hop with rfl | rfl
    · have hlayout : (Instruction.assigned .cachePoint ()).Layout [Opcode.cachePoint.byte] :=
        ⟨[], rfl, rfl⟩
      exact decode_append_layout hp hlayout rfl q
    · have hlayout : (Instruction.assigned .cacheReset ()).Layout [Opcode.cacheReset.byte] :=
        ⟨[], rfl, rfl⟩
      exact decode_append_layout hp hlayout rfl q
  · obtain ⟨hsize, later, htokens, hdecode⟩ := exists_decode_appending ctx hp false q
    rw [herror, hwhole]
    refine ⟨hsize, later, htokens, fun byte hbyte => ?_⟩
    exact hdecode (.unassigned byte) [byte] _ ⟨hbyte, rfl⟩ (fun hn => nomatch hn) rfl
  · intro e he
    rw [hwhole] at he
    obtain ⟨h, -, hmoved⟩ := Option.map_eq_some_iff.1 he
    cases h with
    | fault e' =>
      cases hmoved
      rw [DecodeError.offset_moved]
      omega
    | panic => cases hmoved

/-- A byte that no opcode has between the members of a disjunction, with a bracket too many behind
them. -/
theorem inserted_byte_in_disjunction :
    let ctx := ({} : Options).context 64
    let first : List UInt8 := [0xdc, 2, 0, 0, 0, 0xc1, 1]
    let second : List UInt8 := [0xc1, 2, 0x03]
    let whole := ctx.decode (first ++ 0x4a :: second)
    whole.tree.tokens 1 = #[.value "1" none, .operator "/*4a*/" none, .value "2" none] ∧
      whole.error = some (.fault (.noParentScope 10)) := by
  intro ctx first second whole
  let tree (tokens : Array Token) : TokenTree :=
    ⟨#[⟨.root, #[.scope 1]⟩, ⟨.connective .disjunction, tokens⟩]⟩
  let one : Token := .value "1" none
  let two : Token := .value "2" none
  have hfirst : ctx.run .initial (.ofBytes first) = (⟨tree #[one], [⟨1, some 1⟩]⟩, none) := by
    have hopen : ctx.step .initial (.ofBytes first) =
        (⟨tree #[], [⟨1, some 2⟩]⟩, .ok ⟨[0xc1, 1], 5⟩) := rfl
    have hone : ctx.step ⟨tree #[], [⟨1, some 2⟩]⟩ ⟨[0xc1, 1], 5⟩ =
        (⟨tree #[one], [⟨1, some 1⟩]⟩, .ok ⟨[], 7⟩) := rfl
    rw [run_of_step_ok rfl hopen, run_of_step_ok rfl hone, run_of_atEnd rfl]
  have hboth : ctx.decode (first ++ second) =
      ⟨tree #[one, two], some (.fault (.noParentScope 9))⟩ := by
    have htwo : ctx.step ⟨tree #[one], [⟨1, some 1⟩]⟩ ⟨[0xc1, 2, 0x03], 0⟩ =
        (⟨tree #[one, two], []⟩, .ok ⟨[0x03], 2⟩) := rfl
    have hclose : ctx.step ⟨tree #[one, two], []⟩ ⟨[0x03], 2⟩ =
        (⟨tree #[one, two], []⟩, .error (.fault (.noParentScope 2))) := rfl
    have hrun := (run_of_step_ok rfl htwo).trans (run_of_step_error rfl hclose)
    rw [decode_append_eq hfirst, Cursor.ofBytes, hrun]
    rfl
  obtain ⟨-, ⟨hsize, later, htokens, hunassigned⟩, -⟩ := inserted_byte ctx hfirst second
  have hwhole := hunassigned 0x4a (by decide +kernel)
  rw [hboth] at hsize htokens hwhole
  have hlater : later = #[two] := ((Array.append_right_inj #[one]).1 htokens).symm
  rw [hlater] at hwhole
  refine ⟨?_, congrArg Decoded.error hwhole⟩
  have hnote : "/*" ++ Literal.hex (0x4a : UInt8).toNat ++ "*/" = "/*4a*/" := by decide +kernel
  have htree : whole.tree = _ := congrArg Decoded.tree hwhole
  rw [htree, hnote]
  exact TokenTree.tokens_withTokens hsize _

end DecodeContext

end Dxb
