import Mathlib.Data.List.Nodup
import Dxb.Proofs.Program.Trace
import Dxb.Proofs.Program.Nesting

/-!
# The members of a scope

`ctx.members ms s id` is how many members a scope has after the instructions `ms`: the values that
were appended to it, but for the two kinds that do not count, and the scopes in it that have closed.
What an instruction does to open scopes depends on little of it (`Takes.change`): whether it appends
a member, opens a scope for a number of members, or closes one.

It is easier to count scopes in a scope when they open.  `ctx.total` does that, and is one ahead of
the members where a scope in this one is still open (`members_add_one_of_inner`).
-/

namespace Dxb

/-! ## What counts -/

/-- Two opcodes append values that are no members. -/
def Instruction.isAside : Instruction → Bool
  | assigned .wildcard _ => true
  | assigned .relativePath _ => true
  | _ => false

/-- The number of members that a connective is opened for. -/
def Instruction.arity? : Instruction → Option Nat
  | assigned (.connective _) (count, _) => some count.toNat
  | _ => none

def Token.isValue : Token → Bool
  | value _ _ => true
  | _ => false

def Effect.appendsValue : Effect → Bool
  | append token _ => token.isValue
  | _ => false

/-- The number of values in a scope, those included that do not count. -/
def TokenTree.valueTokens (t : TokenTree) (id : Nat) : Nat :=
  (t.tokens id).toList.countP Token.isValue

/-- An effect completes a member exactly if it appends a value that counts, and opens a scope for
the members that the instruction announces. -/
def Effect.Accords (i : Instruction) : Effect → Prop
  | append token counts => i.arity? = none ∧ counts = (token.isValue && !i.isAside)
  | opens _ members => members = i.arity?
  | nothing => i.arity? = none
  | closes => i.arity? = none
  | panics => i.arity? = none

theorem Effect.accords_written {i : Instruction} (harity : i.arity? = none)
    (haside : i.isAside = false) (text : Option String) : (Effect.written text).Accords i := by
  cases text with
  | none => exact harity
  | some text => exact ⟨harity, by rw [haside]; rfl⟩

theorem Instruction.effect_accords (o : Options) (nested : List UInt8 → Option String)
    (i : Instruction) : (i.effect o nested).Accords i := by
  cases i with
  | unassigned byte => exact ⟨rfl, rfl⟩
  | assigned op operands =>
    cases op with
    | opening b => exact rfl
    | connective c => exact rfl
    | cachePoint | cacheReset | closing _ => exact rfl
    | time | quantity | scopeBlock | endpoint _ _ =>
      obtain ⟨text, heffect⟩ := Opcode.exists_written_of_judged o nested _ rfl operands
      rw [effect, heffect]
      exact Effect.accords_written rfl rfl text
    | _ => exact ⟨rfl, rfl⟩

namespace DecodeContext

variable (ctx : DecodeContext)

/-- The instruction appends a value to the current scope. -/
def appendsValue (m : Moment) : Bool := (ctx.effect m.state.depth m.instruction).appendsValue

/-- The instruction appends a value that counts as a member of the current scope. -/
def isMember (m : Moment) : Bool := ctx.appendsValue m && !m.instruction.isAside

/-- How many values the instructions appended to a scope that count as its members. -/
def values (ms : List Moment) (id : Nat) : Nat :=
  ms.countP fun m => m.state.current = id && ctx.isMember m

/-- How many values the instructions appended to a scope that do not count. -/
def asides (ms : List Moment) (id : Nat) : Nat :=
  ms.countP fun m => m.state.current = id && (ctx.appendsValue m && m.instruction.isAside)

/-- The members that a scope has in a state that the instructions led to. -/
def members (ms : List Moment) (s : DecoderState) (id : Nat) : Nat :=
  ctx.values ms id + (s.tree.children id).countP (· ∉ s.path)

/-- The members of a scope, with the scope in it that may still be open. -/
def total (ms : List Moment) (t : TokenTree) (id : Nat) : Nat :=
  ctx.values ms id + (t.children id).length

/-- One of the instructions opened a scope as a connective of so many members. -/
def Declared (ms : List Moment) (id count : Nat) : Prop :=
  ∃ m ∈ ms, m.state.tree.size = id ∧ m.instruction.arity? = some count

/-! ## What a step does to open scopes -/

inductive Change (m : Moment) : DecoderState → Prop
  /-- No scope is opened or closed, except for connectives that are complete. -/
  | token {t : TokenTree} (harity : m.instruction.arity? = none)
      (hcloses : m.instruction.closes = false) (hsize : t.size = m.state.tree.size)
      (hchildren : ∀ id, t.children id = m.state.tree.children id)
      (htokens : ∀ id, id ≠ m.state.current → t.tokens id = m.state.tree.tokens id)
      (hvalues : t.valueTokens m.state.current =
        m.state.tree.valueTokens m.state.current + if ctx.appendsValue m = true then 1 else 0) :
      Change m ⟨t, if ctx.isMember m then completeMember m.state.openScopes
        else m.state.openScopes⟩
  | scope (kind : ScopeKind) (hvalue : ctx.appendsValue m = false)
      (hcloses : m.instruction.closes = false) :
      Change m ⟨m.state.tree.openScope m.state.current kind,
        if m.instruction.arity? = some 0 then completeMember m.state.openScopes
        else ⟨m.state.tree.size, m.instruction.arity?⟩ :: m.state.openScopes⟩
  | close {scope : OpenScope} {outer : List OpenScope}
      (hopen : m.state.openScopes = scope :: outer) (harity : m.instruction.arity? = none)
      (hvalue : ctx.appendsValue m = false) (hcloses : m.instruction.closes = true) :
      Change m ⟨m.state.tree, completeMember outer⟩

variable {ctx}

theorem Takes.change {m : Moment} {s' : DecoderState} {c' : Cursor} (h : ctx.Takes m s' c')
    (hcurrent : m.state.current < m.state.tree.size) : ctx.Change m s' := by
  obtain ⟨-, hcan, rfl⟩ := h
  have haccords : (ctx.effect m.state.depth m.instruction).Accords m.instruction :=
    m.instruction.effect_accords _ _
  have hproper : (ctx.effect m.state.depth m.instruction).Proper m.instruction.nests :=
    m.instruction.proper_effect _ _
  have hcloses : ctx.effect m.state.depth m.instruction = .closes ↔ m.instruction.closes = true :=
    m.instruction.effect_eq_closes_iff _ _
  have hvalue : ctx.appendsValue m = (ctx.effect m.state.depth m.instruction).appendsValue := rfl
  generalize ctx.effect m.state.depth m.instruction = effect at *
  have hnot : effect ≠ .closes → m.instruction.closes = false := by
    intro hne
    rwa [← Bool.not_eq_true, ← hcloses]
  cases effect with
  | nothing =>
    have hchange := @Change.token ctx m m.state.tree haccords (hnot nofun) rfl (fun _ => rfl)
      (fun _ _ => rfl) (by rw [hvalue]; rfl)
    rw [isMember, hvalue] at hchange
    exact hchange
  | append token counts =>
    obtain ⟨harity, hcounts⟩ := haccords
    have htokens := TokenTree.tokens_push hcurrent token
    have hvalues : (m.state.tree.push m.state.current token).valueTokens m.state.current =
        m.state.tree.valueTokens m.state.current +
          if ctx.appendsValue m = true then 1 else 0 := by
      rw [TokenTree.valueTokens, htokens, if_pos rfl, Array.toList_push, List.countP_append,
        List.countP_singleton, hvalue]
      rfl
    have hchange := @Change.token ctx m _ harity (hnot nofun) (TokenTree.size_push _ _)
      (TokenTree.children_push_of_ne_scope hcurrent hproper)
      (fun id hid => by rw [htokens, if_neg hid]) hvalues
    rw [isMember, hvalue] at hchange
    simp only [Effect.appendsValue, ← hcounts] at hchange
    exact hchange
  | opens kind members =>
    have harity : members = m.instruction.arity? := haccords
    have hchange : ctx.Change m ⟨m.state.tree.openScope m.state.current kind, _⟩ :=
      .scope kind hvalue (hnot nofun)
    rw [← harity] at hchange
    dsimp only [DecoderState.apply]
    split
    · rename_i hzero
      rwa [if_pos hzero] at hchange
    · rename_i hzero
      rwa [if_neg hzero] at hchange
  | closes =>
    dsimp only [DecoderState.apply]
    split
    · rename_i hnil
      exact absurd hnil ((DecoderState.halt?_eq_none_iff.1 hcan).2 rfl)
    · rename_i hopen
      exact .close hopen haccords hvalue (hcloses.1 rfl)
  | panics => exact absurd rfl (DecoderState.halt?_eq_none_iff.1 hcan).1

/-! ## Counting -/

variable {ms : List Moment} {m : Moment} {s s' : DecoderState}

theorem values_concat (ms : List Moment) (m : Moment) (id : Nat) :
    ctx.values (ms ++ [m]) id =
      ctx.values ms id + if m.state.current = id ∧ ctx.isMember m = true then 1 else 0 := by
  unfold values
  rw [List.countP_append, List.countP_singleton]
  simp

theorem isMember_eq_false (h : ctx.appendsValue m = false) : ctx.isMember m = false := by
  rw [isMember, h]
  rfl

/-- Every value either counts or does not. -/
theorem values_add_asides_concat (ms : List Moment) (m : Moment) (id : Nat) :
    ctx.values (ms ++ [m]) id + ctx.asides (ms ++ [m]) id = ctx.values ms id + ctx.asides ms id +
      if m.state.current = id ∧ ctx.appendsValue m = true then 1 else 0 := by
  rw [values_concat]
  unfold asides
  rw [List.countP_append, List.countP_singleton]
  unfold isMember
  by_cases hid : m.state.current = id
  · cases ctx.appendsValue m <;> cases m.instruction.isAside <;> simp [hid] <;> omega
  · simp [hid]

theorem declared_concat_iff {id count : Nat} : Declared (ms ++ [m]) id count ↔
    Declared ms id count ∨ (m.state.tree.size = id ∧ m.instruction.arity? = some count) := by
  simp [Declared, or_and_right, exists_or]

theorem declared_of_concat {id count : Nat} (harity : m.instruction.arity? = none)
    (h : Declared (ms ++ [m]) id count) : Declared ms id count := by
  rcases declared_concat_iff.1 h with h | ⟨-, h⟩
  · exact h
  · rw [harity] at h
    cases h

theorem total_of_children_eq {t : TokenTree}
    (h : ∀ id, t.children id = m.state.tree.children id) (id : Nat) :
    ctx.total (ms ++ [m]) t id = ctx.total ms m.state.tree id +
      if m.state.current = id ∧ ctx.isMember m = true then 1 else 0 := by
  rw [total, values_concat, h, total]
  omega

theorem total_openScope (hmember : ctx.isMember m = false)
    (hcurrent : m.state.current < m.state.tree.size) (kind : ScopeKind) (id : Nat) :
    ctx.total (ms ++ [m]) (m.state.tree.openScope m.state.current kind) id =
      ctx.total ms m.state.tree id + if m.state.current = id then 1 else 0 := by
  rw [total, values_concat, hmember, TokenTree.children_openScope hcurrent, total]
  by_cases hid : id = m.state.current
  · rw [if_pos hid, if_pos hid.symm, if_neg (fun h => nomatch h.2), hid, List.length_append]
    rfl
  · rw [if_neg hid, if_neg (Ne.symm hid), if_neg (fun h => nomatch h.2)]
    rfl

theorem Takes.valueTokens_eq {c' : Cursor} (h : ctx.Takes m s' c')
    (hcurrent : m.state.current < m.state.tree.size) (id : Nat) :
    s'.tree.valueTokens id = m.state.tree.valueTokens id +
      if m.state.current = id ∧ ctx.appendsValue m = true then 1 else 0 := by
  cases h.change hcurrent with
  | token _ _ _ _ htokens hvalues =>
    by_cases hid : m.state.current = id
    · subst hid
      simpa using hvalues
    · rw [TokenTree.valueTokens, htokens id (Ne.symm hid), if_neg fun h => hid h.1]
      rfl
  | scope kind hvalue =>
    have hsame : (m.state.tree.openScope m.state.current kind).valueTokens id =
        m.state.tree.valueTokens id := by
      rw [TokenTree.valueTokens, TokenTree.tokens_openScope hcurrent]
      split
      · rename_i hid
        rw [hid, Array.toList_push, List.countP_append]
        rfl
      · rfl
    dsimp only
    rw [hsame, hvalue]
    simp
  | close _ _ hvalue =>
    rw [hvalue]
    simp

/-- A closed scope names closed ones only, and the innermost one too. -/
theorem members_eq_total {levels : Nat} (hg : s.tree.Grown levels s.path) {id : Nat}
    (hid : id ∉ s.path ∨ id = s.current) : ctx.members ms s id = ctx.total ms s.tree id := by
  have hclosed : ∀ inner ∈ s.tree.children id, inner ∉ s.path := by
    intro inner hm hp
    rcases hid with hid | rfl
    · exact hid (hg.spine.outer_mem hg.toNamed hp hm)
    · have hle := DecoderState.le_current hg hp
      have hlt := (hg.lt_of_mem_children hm).1
      omega
  unfold members total
  rw [List.countP_eq_length.2 fun inner hm => by simpa using hclosed inner hm]

/-- Any other scope that is open names one open scope. -/
theorem members_add_one_of_inner {levels : Nat} (hg : s.tree.Grown levels s.path) {id : Nat}
    (hid : id ∈ s.path) (hne : id ≠ s.current) :
    ctx.members ms s id + 1 = ctx.total ms s.tree id := by
  obtain ⟨inner, hinner, hopen⟩ := DecoderState.exists_open_inner hg hid hne
  have hone : (s.tree.children id).countP (· ∈ s.path) = 1 := by
    rw [← List.count_eq_one_of_mem (hg.nodup_children id) hinner, List.count]
    refine List.countP_congr fun x hx => ?_
    simp only [decide_eq_true_eq, beq_iff_eq]
    exact ⟨fun hp => hg.spine.inner_unique hg.toNamed hp hopen hx hinner, fun h => h ▸ hopen⟩
  have hsplit := List.length_eq_countP_add_countP (fun x => decide (x ∈ s.path))
    (l := s.tree.children id)
  have hclosed : (s.tree.children id).countP (fun x => decide ¬decide (x ∈ s.path) = true) =
      (s.tree.children id).countP (· ∉ s.path) := by simp
  unfold members total
  omega

end DecodeContext

end Dxb
