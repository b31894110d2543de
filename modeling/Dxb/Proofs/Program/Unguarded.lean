import Dxb.Proofs.Program.Lockstep

/-!
# Guards that never stop anything

Rendering goes on only into scopes behind the one being written, and decompiling only into programs
with fewer levels left.  Neither guard leaves anything out: every scope that a decoded tree names is
behind the one that names it (`scopeText_eq`), and a nested program is read only where there is a
level left for it (`decompileWithin_eq`).
-/

namespace Dxb

/-! ## Rendering -/

theorem writeTokens_congr {sign : Option String} {f g : Nat → String} {tokens : List Token}
    (h : ∀ id, .scope id ∈ tokens → f id = g id) (t : ScopeText) :
    writeTokens sign f t tokens = writeTokens sign g t tokens := by
  induction tokens generalizing t with
  | nil => rfl
  | cons token rest ih =>
    have hrest : ∀ id, .scope id ∈ rest → f id = g id :=
      fun id hid => h id (List.mem_cons_of_mem _ hid)
    unfold writeTokens
    cases token with
    | scope id =>
      dsimp only
      rw [h id List.mem_cons_self, ih hrest]
    | value text d => exact ih hrest _
    | operator text d => exact ih hrest _
    | separator text => exact ih hrest _

theorem Scope.inner_congr {f g : Nat → String} {scope : Scope}
    (h : ∀ id, .scope id ∈ scope.tokens.toList → f id = g id) : scope.inner f = scope.inner g := by
  unfold Scope.inner
  rw [writeTokens_congr h]

/-- The text of a scope is made of the texts of all scopes that it names. -/
theorem TokenTree.Named.scopeText_eq {t : TokenTree} (h : t.Named) (formatted : Bool) (id : Nat) :
    t.scopeText formatted id = match t.scopes[id]? with
      | some scope => scope.kind.enclose formatted (scope.inner (t.scopeText formatted))
      | none => "" := by
  rw [scopeText]
  split
  · rename_i hid
    have hscope : t.scopes[id]? = some t.scopes[id] := Array.getElem?_eq_getElem hid
    rw [hscope]
    dsimp only
    congr 1
    apply Scope.inner_congr
    intro child hm
    rw [if_pos (h.lt_of_mem_children (mem_children_of_mem hscope hm)).1]
  · rename_i hid
    have hnone : t.scopes[id]? = none := Array.getElem?_eq_none (Nat.le_of_not_lt hid)
    rw [hnone]

/-! ## Nested programs -/

/-- The nested program that an instruction carries. -/
def Instruction.program? : Instruction → Option (List UInt8)
  | assigned .scopeBlock (body, _) => some body
  | _ => none

theorem Instruction.eq_of_program? {i : Instruction} {program : List UInt8}
    (h : i.program? = some program) : i = .assigned .scopeBlock (program, ()) := by
  cases i with
  | unassigned byte => cases h
  | assigned op operands =>
    cases op with
    | scopeBlock =>
      cases h
      rfl
    | _ => cases h

theorem Instruction.nests_of_program? {i : Instruction} {program : List UInt8}
    (h : i.program? = some program) : i.nests = true := by
  rw [eq_of_program? h]
  rfl

/-- How programs are decompiled matters to an instruction for the program that it carries. -/
theorem Instruction.effect_congr {o : Options} {nested nested' : List UInt8 → Option String}
    {i : Instruction}
    (h : ∀ program, i.program? = some program → nested program = nested' program) :
    i.effect o nested = i.effect o nested' := by
  cases i with
  | unassigned byte => rfl
  | assigned op operands =>
    cases op with
    | scopeBlock =>
      have hbody : nested operands.1 = nested' operands.1 := h operands.1 rfl
      simp only [effect, Opcode.effect, hbody]
    | _ => rfl

@[simp] theorem Options.levels_context (o : Options) (levels : Nat) :
    (o.context levels).levels = levels := rfl

theorem Options.nested_context (o : Options) {levels inner : Nat} (h : inner < levels) :
    (o.context levels).nested inner = decompileWithin o inner := by
  funext program
  exact if_pos h

/-- Where there is room for what it opens, an instruction has the text of a nested program. -/
theorem Options.effect_context (o : Options) {levels depth : Nat} {i : Instruction}
    (hroom : i.nests = true → depth < levels) :
    (o.context levels).effect depth i = i.effect o (decompileWithin o (levels - depth - 1)) := by
  apply Instruction.effect_congr
  intro program hprogram
  have hdepth := hroom (Instruction.nests_of_program? hprogram)
  rw [o.levels_context, o.nested_context (by omega)]

/-- Nested programs are decompiled with fewer levels only. -/
theorem Options.decode_context (o : Options) (levels : Nat) (body : List UInt8) :
    (o.context levels).decode body = DecodeContext.decode ⟨o, levels, decompileWithin o⟩ body := by
  refine DecodeContext.decode_congr ?_ ?_ body
  · rfl
  intro s c i hmeets
  exact o.effect_context hmeets.room

theorem decompileWithin_eq_script (o : Options) (levels : Nat) (body : List UInt8) :
    decompileWithin o levels body = ((o.context levels).decode body).script o.formatted := by
  rw [decompileWithin]
  rfl

/-- Every nested program is decompiled. -/
theorem decompileWithin_eq (o : Options) (levels : Nat) (body : List UInt8) :
    decompileWithin o levels body =
      (DecodeContext.decode ⟨o, levels, decompileWithin o⟩ body).script o.formatted := by
  rw [decompileWithin_eq_script, o.decode_context]

/-- Only a panic leaves no script. -/
theorem Decoded.script_eq_none_iff (formatted : Bool) (d : Decoded) :
    d.script formatted = none ↔ d.error = some .panic := by
  obtain ⟨tree, error⟩ := d
  unfold script
  rw [Option.map_eq_none_iff]
  cases error with
  | none => exact iff_of_false nofun nofun
  | some h =>
    cases h with
    | fault e => exact iff_of_false nofun nofun
    | panic => exact iff_of_true rfl rfl

theorem decompileWithin_eq_none_iff (o : Options) (levels : Nat) (body : List UInt8) :
    decompileWithin o levels body = none ↔
      ((o.context levels).decode body).error = some .panic := by
  rw [decompileWithin_eq_script, Decoded.script_eq_none_iff]

/-! ## Everything together -/

/-- Whatever the bytes are, decoding that starts at some depth within the limit gives a tree, none
of whose scopes is deeper than the limit, and writes to scopes of the tree only; the texts of a
scope and of a program are made of the texts of everything that is in them. -/
theorem decoded_tree (o : Options) (start : Nat) (hstart : start ≤ Instruction.maxDepth)
    (body : List UInt8) :
    let levels := Instruction.maxDepth - start
    let tree := ((o.context levels).decode body).tree
    tree.IsTree ∧
      (∀ id, id < tree.size → ∃ depth, tree.AtDepth id depth ∧
        start + depth ≤ Instruction.maxDepth ∧ ∀ d, tree.AtDepth id d → d = depth) ∧
      (∀ s c, (o.context levels).Steps .initial (.ofBytes body) s c → s.current < s.tree.size) ∧
      (∀ formatted id, tree.scopeText formatted id = match tree.scopes[id]? with
        | some scope => scope.kind.enclose formatted (scope.inner (tree.scopeText formatted))
        | none => "") ∧
      decompileWithin o levels body =
        (DecodeContext.decode ⟨o, levels, decompileWithin o⟩ body).script o.formatted := by
  intro levels tree
  obtain ⟨path, hgrown⟩ := DecodeContext.grown_decode (o.context levels) body
  have hgrown : tree.Grown levels path := hgrown
  refine ⟨hgrown.isTree, ?_, ?_, ?_, decompileWithin_eq o levels body⟩
  · intro id hid
    obtain ⟨depth, hd, hle⟩ := hgrown.level id hid
    have hlevels : levels = Instruction.maxDepth - start := rfl
    exact ⟨depth, hd, by omega, fun d hd' => hgrown.depth_unique hd' hd⟩
  · intro s c hsteps
    exact DecodeContext.current_lt_size hsteps
  · exact fun formatted id => hgrown.scopeText_eq formatted id

/-- A bracket at the last level that there is. -/
theorem decoded_tree_of_last_bracket :
    ((({} : Options).context (Instruction.maxDepth - 63)).decode [0x02, 0x03]).tree.walk
      TokenTree.root = [0, 1] := by
  let tree : TokenTree := ⟨#[⟨.root, #[.scope 1]⟩, ⟨.bracket .subscope, #[]⟩]⟩
  let ctx := ({} : Options).context (Instruction.maxDepth - 63)
  have hopen : ctx.step .initial ⟨[0x02, 0x03], 0⟩ = (⟨tree, [⟨1, none⟩]⟩, .ok ⟨[0x03], 1⟩) := rfl
  have hclose : ctx.step ⟨tree, [⟨1, none⟩]⟩ ⟨[0x03], 1⟩ = (⟨tree, []⟩, .ok ⟨[], 2⟩) := rfl
  have hrun : ctx.run .initial (.ofBytes [0x02, 0x03]) = (⟨tree, []⟩, none) := by
    rw [Cursor.ofBytes, DecodeContext.run_of_step_ok rfl hopen,
      DecodeContext.run_of_step_ok rfl hclose, DecodeContext.run_of_atEnd rfl]
  have htree := (decoded_tree {} 63 (by decide) [0x02, 0x03]).1
  rw [htree.walk_root]
  show List.range (ctx.decode [0x02, 0x03]).tree.size = _
  rw [DecodeContext.decode_of_run hrun]
  rfl

end Dxb
