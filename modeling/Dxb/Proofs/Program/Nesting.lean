import Dxb.Proofs.Program.Growth
import Dxb.Proofs.Program.Run

/-!
# Decoding builds a tree

The open scopes of a decoder are the spine of its tree.  An instruction appends a token that names
no scope, opens a scope in the innermost one when there is room for it, or closes scopes from the
inside, so every step keeps the tree a tree (`grown_apply`), and so does every run, whether it ends
with an error or not (`grown_decode`).
-/

namespace Dxb

/-! ## Values that are judged after they are read -/

/-- The opcodes with an operand that can be complete and still not be what the opcode wants. -/
def Opcode.judged : Opcode → Bool
  | time | quantity | scopeBlock | endpoint _ _ => true
  | _ => false

/-- An operand that is complete gives a value, if only one that says what is wrong with it, or it
panics. -/
theorem Opcode.exists_written_of_judged (o : Options) (nested : List UInt8 → Option String)
    (op : Opcode) (h : op.judged = true) (operands : Operands op.operands) :
    ∃ text, op.effect o nested operands = .written text := by
  cases op with
  | scopeBlock => exact ⟨_, rfl⟩
  | quantity =>
    unfold Opcode.effect
    dsimp only
    split
    · exact ⟨_, rfl⟩
    · exact ⟨some _, rfl⟩
  | time | endpoint kind wild =>
    -- one branch writes the value, the other one the error
    unfold Opcode.effect
    dsimp only
    split
    · exact ⟨some _, rfl⟩
    · exact ⟨some _, rfl⟩
  | _ => cases h

/-! ## What an instruction may do -/

/-- An effect appends no scope token of its own, and opens no root; it opens a scope only if
`nests`. -/
def Effect.Proper (nests : Bool) : Effect → Prop
  | .append token _ => ∀ id, token ≠ .scope id
  | .opens kind _ => kind ≠ .root ∧ nests = true
  | _ => True

theorem Effect.proper_written (nests : Bool) (text : Option String) :
    (Effect.written text).Proper nests := by
  cases text with
  | none => exact trivial
  | some text => exact nofun

theorem Opcode.proper_effect (o : Options) (nested : List UInt8 → Option String) (op : Opcode)
    (operands : Operands op.operands) : (op.effect o nested operands).Proper op.nests := by
  cases op with
  | opening b => exact ⟨nofun, rfl⟩
  | connective c => exact ⟨nofun, rfl⟩
  | cachePoint | cacheReset | closing _ => exact trivial
  | time | quantity | scopeBlock | endpoint _ _ =>
    obtain ⟨text, heffect⟩ := Opcode.exists_written_of_judged o nested _ rfl operands
    rw [heffect]
    exact Effect.proper_written _ text
  | _ => exact nofun

/-- Whether an instruction counts towards the nesting limit. -/
def Instruction.nests : Instruction → Bool
  | unassigned _ => false
  | assigned op _ => op.nests

theorem Instruction.proper_effect (o : Options) (nested : List UInt8 → Option String)
    (i : Instruction) : (i.effect o nested).Proper i.nests := by
  cases i with
  | unassigned byte => exact nofun
  | assigned op operands => exact op.proper_effect o nested operands

/-- Whether an instruction closes the current scope. -/
def Instruction.closes : Instruction → Bool
  | assigned (.closing _) _ => true
  | _ => false

theorem Effect.written_ne_closes (text : Option String) : Effect.written text ≠ .closes := by
  cases text <;> exact nofun

theorem Instruction.effect_eq_closes_iff (o : Options) (nested : List UInt8 → Option String)
    (i : Instruction) : i.effect o nested = .closes ↔ i.closes = true := by
  cases i with
  | unassigned byte => exact ⟨nofun, nofun⟩
  | assigned op operands =>
    cases op with
    | closing b => exact ⟨fun _ => rfl, fun _ => rfl⟩
    | time | quantity | scopeBlock | endpoint _ _ =>
      obtain ⟨text, heffect⟩ := Opcode.exists_written_of_judged o nested _ rfl operands
      rw [effect, heffect]
      exact iff_of_false (Effect.written_ne_closes text) nofun
    | _ => exact ⟨nofun, nofun⟩

/-- What an instruction stands for cannot be written: it is a quantity with too many decimal places,
or a nested program that panics itself. -/
inductive Instruction.Panics (nested : List UInt8 → Option String) : Instruction → Prop
  | quantity {record : QuantityRecord} {q : Quantity} (hq : record.quantity? = .ok q)
      (h : q.text? = none) : Panics nested (.assigned .quantity (record, ()))
  | program {body : List UInt8} (h : nested body = none) :
      Panics nested (.assigned .scopeBlock (body, ()))

theorem Effect.written_eq_panics_iff {text : Option String} :
    Effect.written text = .panics ↔ text = none := by
  cases text with
  | none => exact iff_of_true rfl rfl
  | some text => exact iff_of_false nofun nofun

theorem Instruction.effect_eq_panics_iff (o : Options) (nested : List UInt8 → Option String)
    (i : Instruction) : i.effect o nested = .panics ↔ i.Panics nested := by
  cases i with
  | unassigned byte => exact ⟨nofun, nofun⟩
  | assigned op operands =>
    cases op with
    | time =>
      simp only [effect, Opcode.effect]
      split <;> exact ⟨nofun, nofun⟩
    | quantity =>
      obtain ⟨record, ⟨⟩⟩ := operands
      simp only [effect, Opcode.effect]
      split
      · rename_i q hq
        rw [Effect.written_eq_panics_iff]
        refine ⟨fun h => .quantity hq h, fun h => ?_⟩
        cases h with
        | quantity hq' h =>
          rw [hq] at hq'
          cases hq'
          exact h
      · rename_i e he
        refine ⟨nofun, fun h => ?_⟩
        cases h with
        | quantity hq _ =>
          rw [he] at hq
          cases hq
    | scopeBlock =>
      obtain ⟨body, ⟨⟩⟩ := operands
      simp only [effect, Opcode.effect]
      rw [Effect.written_eq_panics_iff, Option.map_eq_none_iff]
      refine ⟨fun h => .program h, fun h => ?_⟩
      cases h with
      | program h => exact h
    | endpoint kind wild =>
      simp only [effect, Opcode.effect]
      split <;> exact ⟨nofun, nofun⟩
    | _ => exact ⟨nofun, nofun⟩

/-- Without room nothing that nests is read. -/
theorem Instruction.room_of_read {room : Bool} {c d : Cursor} {i : Instruction}
    (h : (Instruction.read room).run c = (.ok i, d)) (hn : i.nests = true) : room = true := by
  simp only [Instruction.read, Reader.run_bind, Reader.run_position] at h
  split at h
  · rename_i byte rest hb
    unfold Instruction.readRest at h
    split at h
    · cases h
      cases hn
    · rename_i op _
      split at h
      · cases h
      · rename_i hroom
        simp only [Reader.run_bind] at h
        split at h
        · cases h
          have hop : op.nests = true := hn
          rw [hop] at hroom
          simpa using hroom
        · cases h
  · cases h

/-- Completing a member closes scopes from the inside. -/
theorem completeMember_suffix (scopes : List OpenScope) :
    (completeMember scopes).map (·.id) <:+ scopes.map (·.id) := by
  induction scopes with
  | nil => exact List.suffix_refl _
  | cons s outer ih =>
    unfold completeMember
    split
    · exact List.suffix_refl _
    · split
      · exact List.suffix_refl _
      · exact ih.trans (List.suffix_cons _ _)

namespace DecoderState

variable {levels : Nat} {s : DecoderState}

/-- The open scopes, innermost first, with the root behind them. -/
def path (s : DecoderState) : List Nat := s.openScopes.map (·.id) ++ [TokenTree.root]

theorem exists_path_eq (s : DecoderState) :
    ∃ outer, s.path = s.current :: outer ∧ outer.length = s.depth := by
  obtain ⟨tree, openScopes⟩ := s
  cases openScopes with
  | nil => exact ⟨[], rfl, rfl⟩
  | cons scope outer =>
    refine ⟨outer.map (·.id) ++ [TokenTree.root], rfl, ?_⟩
    simp [depth]

theorem current_mem_path (s : DecoderState) : s.current ∈ s.path := by
  obtain ⟨outer, hpath, -⟩ := s.exists_path_eq
  rw [hpath]
  exact List.mem_cons_self

/-- The innermost open scope was opened last. -/
theorem le_current (h : s.tree.Grown levels s.path) {id : Nat} (hopen : id ∈ s.path) :
    id ≤ s.current := by
  obtain ⟨outer, hpath, -⟩ := s.exists_path_eq
  have hspine := h.spine
  rw [hpath] at hspine hopen
  exact hspine.le_head h.toNamed id hopen

theorem exists_open_inner (h : s.tree.Grown levels s.path) {id : Nat} (hopen : id ∈ s.path)
    (hne : id ≠ s.current) : ∃ inner ∈ s.tree.children id, inner ∈ s.path := by
  obtain ⟨outer, hpath, -⟩ := s.exists_path_eq
  have hspine := h.spine
  rw [hpath] at hspine hopen ⊢
  exact hspine.exists_inner hopen hne

/-- Completing a member opens nothing. -/
theorem mem_of_mem_completeMember {t : TokenTree} {scopes : List OpenScope} {id : Nat}
    (h : id ∈ path ⟨t, completeMember scopes⟩) :
    id ∈ scopes.map OpenScope.id ++ [TokenTree.root] := by
  rcases List.mem_append.1 h with hscope | hroot
  · exact List.mem_append_left _ ((completeMember_suffix _).subset hscope)
  · exact List.mem_append_right _ hroot

theorem grown_of_suffix {t : TokenTree} {scopes : List OpenScope} (ids : List Nat)
    (h : t.Grown levels (ids ++ [TokenTree.root])) (hs : scopes.map (·.id) <:+ ids) :
    t.Grown levels (path ⟨t, scopes⟩) := by
  obtain ⟨closed, hclosed⟩ := hs
  rw [← hclosed, List.append_assoc] at h
  exact h.close (by simp)

/-- Scopes are only ever added. -/
theorem size_le_apply (s : DecoderState) (effect : Effect) :
    s.tree.size ≤ (s.apply effect).tree.size := by
  cases effect with
  | nothing => exact Nat.le_refl _
  | append token counts => exact Nat.le_of_eq (TokenTree.size_push _ _).symm
  | opens kind members =>
    have hopen : s.tree.size ≤ (s.tree.openScope s.current kind).size := by
      rw [TokenTree.size_openScope]
      omega
    dsimp only [apply]
    split <;> exact hopen
  | closes =>
    dsimp only [apply]
    split <;> exact Nat.le_refl _
  | panics => exact Nat.le_refl _

/-- Every effect keeps the tree a tree. -/
theorem grown_apply (h : s.tree.Grown levels s.path) {nests : Bool} {effect : Effect}
    (he : effect.Proper nests) (hroom : nests = true → s.depth < levels) :
    (s.apply effect).tree.Grown levels (s.apply effect).path := by
  obtain ⟨outer, hpath, hlen⟩ := s.exists_path_eq
  cases effect with
  | nothing => exact h
  | append token counts =>
    have hpush := h.push s.current_mem_path he
    refine grown_of_suffix (s.openScopes.map OpenScope.id) hpush ?_
    cases counts with
    | true => exact completeMember_suffix _
    | false => exact List.suffix_refl _
  | opens kind members =>
    obtain ⟨hkind, hn⟩ := he
    have hlevel : outer.length < levels := by
      rw [hlen]
      exact hroom hn
    have hgrown := h
    rw [hpath] at hgrown
    have hopen := hgrown.openScope hkind hlevel
    rw [← hpath] at hopen
    dsimp only [apply]
    split
    · -- a connective without members is closed again
      refine grown_of_suffix (s.tree.size :: s.openScopes.map OpenScope.id) hopen ?_
      exact (completeMember_suffix _).trans (List.suffix_cons _ _)
    · exact hopen
  | closes =>
    dsimp only [apply]
    split
    · exact h
    · rename_i scope outer' heq
      refine grown_of_suffix (s.openScopes.map OpenScope.id) h ?_
      rw [heq]
      exact (completeMember_suffix _).trans (List.suffix_cons _ _)
  | panics => exact h

end DecoderState

namespace DecodeContext

variable {ctx : DecodeContext}

theorem grown_step {s s' : DecoderState} {c d : Cursor} (hstep : ctx.step s c = (s', .ok d))
    (h : s.tree.Grown ctx.levels s.path) : s'.tree.Grown ctx.levels s'.path := by
  obtain ⟨i, hr, -, rfl⟩ := step_eq_ok_iff.1 hstep
  refine DecoderState.grown_apply h (i.proper_effect _ _) ?_
  intro hn
  simpa using Instruction.room_of_read hr hn

theorem Steps.grown {s s' : DecoderState} {c c' : Cursor} (h : ctx.Steps s c s' c')
    (hs : s.tree.Grown ctx.levels s.path) : s'.tree.Grown ctx.levels s'.path :=
  h.induction (P := fun s => s.tree.Grown ctx.levels s.path)
    (fun _ _ _ _ hstep hs => grown_step hstep hs) hs

/-- In every state that decoding goes through, the scopes are a tree and the open ones its spine. -/
theorem grown_steps {s : DecoderState} {c c' : Cursor} (h : ctx.Steps .initial c s c') :
    s.tree.Grown ctx.levels s.path :=
  h.grown (TokenTree.Grown.empty ctx.levels)

/-- The tree of any program, read completely or not. -/
theorem grown_decode (ctx : DecodeContext) (body : List UInt8) :
    ∃ path, (ctx.decode body).tree.Grown ctx.levels path := by
  obtain ⟨c', hsteps, -⟩ := exists_steps_run ctx .initial (.ofBytes body)
  refine ⟨(ctx.run .initial (.ofBytes body)).1.path, ?_⟩
  rw [decode_of_run rfl]
  exact grown_steps hsteps

/-- Tokens are only ever appended to a scope of the tree. -/
theorem current_lt_size {s : DecoderState} {c c' : Cursor} (h : ctx.Steps .initial c s c') :
    s.current < s.tree.size :=
  (grown_steps h).open_lt _ s.current_mem_path

end DecodeContext

end Dxb
