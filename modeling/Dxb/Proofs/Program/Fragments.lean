import Mathlib.Data.List.Chain
import Dxb.Proofs.Program.Completion
import Dxb.Proofs.Program.Elements
import Dxb.Proofs.Program.Provenance
import Dxb.Proofs.Program.Sequence

/-!
# Fragments and complete connectives

A connective counts a member when its token is appended, but a fragment that the token defers is
written only after the next token.  In a connective that becomes complete there is no next token, so
the fragment is written nowhere.

The last token of every scope around an open one names that one (`OpenLast`), and names defer
nothing.  So only the innermost scope can lose a fragment when it becomes complete, and the one
value that defers something is a type whose parameters follow (`left_by_completed`).
-/

namespace Dxb

/-! ## Open scopes -/

/-- Each open scope is named by the last token of the one around it. -/
def DecoderState.OpenLast (s : DecoderState) : Prop :=
  s.path.IsChain fun inner outer => (s.tree.tokens outer).toList.getLast? = some (.scope inner)

namespace DecoderState

variable {levels : Nat} {s : DecoderState}

/-- Appending to the innermost scope changes no scope around it. -/
theorem OpenLast.of_tokens (h : s.OpenLast) (hg : s.tree.Grown levels s.path) {t : TokenTree}
    (ht : ∀ id, id ≠ s.current → t.tokens id = s.tree.tokens id) :
    s.path.IsChain fun inner outer => (t.tokens outer).toList.getLast? = some (.scope inner) := by
  obtain ⟨outer, hpath, -⟩ := s.exists_path_eq
  have hspine := hg.spine
  unfold OpenLast at h
  rw [hpath] at h hspine ⊢
  refine h.imp_of_mem_tail_imp fun a b _ hb hlast => ?_
  have hlt := hspine.lt_head hg.toNamed b hb
  rw [ht b (Nat.ne_of_lt hlt)]
  exact hlast

/-- Closing scopes from the inside leaves the others as they are. -/
theorem path_completeMember_suffix (t : TokenTree) (scopes : List OpenScope) :
    path ⟨t, completeMember scopes⟩ <:+ path ⟨t, scopes⟩ := by
  obtain ⟨closed, hclosed⟩ := completeMember_suffix scopes
  refine ⟨closed, ?_⟩
  unfold path
  dsimp only
  rw [← List.append_assoc, hclosed]

theorem openLast_apply (h : s.OpenLast) (hg : s.tree.Grown levels s.path) (effect : Effect) :
    (s.apply effect).OpenLast := by
  have hcurrent := hg.open_lt _ s.current_mem_path
  cases effect with
  | nothing | panics => exact h
  | append token counts =>
    have hpush := h.of_tokens hg (t := s.tree.push s.current token) fun id hid => by
      rw [TokenTree.tokens_push hcurrent, if_neg hid]
    cases counts with
    | true => exact hpush.suffix (path_completeMember_suffix _ s.openScopes)
    | false => exact hpush
  | opens kind members =>
    have hopen := h.of_tokens hg (t := s.tree.openScope s.current kind) fun id hid => by
      rw [TokenTree.tokens_openScope hcurrent, if_neg hid]
    dsimp only [apply]
    split
    · exact hopen.suffix (path_completeMember_suffix _ s.openScopes)
    · -- the new scope is named by the token that was appended for it
      obtain ⟨outer, hpath, -⟩ := s.exists_path_eq
      have hnew : path ⟨s.tree.openScope s.current kind, ⟨s.tree.size, members⟩ :: s.openScopes⟩ =
          s.tree.size :: s.path := rfl
      unfold OpenLast
      rw [hnew]
      rw [hpath] at hopen ⊢
      refine List.isChain_cons_cons.2 ⟨?_, hopen⟩
      rw [TokenTree.tokens_openScope hcurrent, if_pos rfl]
      simp
  | closes =>
    obtain ⟨tree, scopes⟩ := s
    cases scopes with
    | nil => exact h
    | cons scope outer =>
      exact h.suffix ((path_completeMember_suffix tree outer).trans (List.suffix_cons _ _))

/-- What stands last in an open scope that is not the innermost. -/
theorem OpenLast.exists_scope (h : s.OpenLast) {id : Nat} (hid : id ∈ s.path)
    (hne : id ≠ s.current) :
    ∃ inner, (s.tree.tokens id).toList.getLast? = some (.scope inner) := by
  obtain ⟨outer, hpath, -⟩ := s.exists_path_eq
  unfold OpenLast at h
  rw [hpath] at h hid
  have hmem : id ∈ outer := (List.mem_cons.1 hid).resolve_left hne
  clear hpath hid hne
  generalize s.current = head at h
  induction outer generalizing head with
  | nil => cases hmem
  | cons next outer ih =>
    obtain ⟨hnext, hrest⟩ := List.isChain_cons_cons.1 h
    rcases List.mem_cons.1 hmem with rfl | hmem
    · exact ⟨head, hnext⟩
    · exact ih hmem next hrest

end DecoderState

/-! ## Fragments of values -/

/-- The only value that defers anything is a type whose parameters follow. -/
theorem Instruction.eq_closeType_of_value {o : Options} {nested : List UInt8 → Option String}
    {i : Instruction} {token : Token} {counts : Bool} {d : Deferred}
    (heffect : i.effect o nested = .append token counts) (hvalue : token.isValue = true)
    (hd : i.fragment? = some d) : d = .closeType := by
  cases i with
  | unassigned byte => cases hd
  | assigned op operands =>
    cases op with
    | extendedType =>
      simp only [fragment?] at hd
      split at hd
      · cases hd
        rfl
      · cases hd
    | childSet | childSetReference | childAction | range =>
      cases heffect
      cases hvalue
    | _ => cases hd

theorem Instruction.fragment?_eq_closeType_iff {i : Instruction} :
    i.fragment? = some .closeType ↔
      ∃ t : TypeName, i = .assigned .extendedType (t, ()) ∧ t.parameters = true := by
  constructor
  · intro h
    cases i with
    | unassigned byte => cases h
    | assigned op operands =>
      cases op with
      | extendedType =>
        simp only [fragment?] at h
        split at h
        · rename_i hparameters
          exact ⟨operands.1, rfl, hparameters⟩
        · cases h
      | childSet | childSetReference | childAction | range | _ => cases h
  · rintro ⟨t, rfl, ht⟩
    exact if_pos ht

namespace DecodeContext

variable {ctx : DecodeContext} {ms : List Moment} {m : Moment} {s s' : DecoderState} {c c' : Cursor}
  {id : Nat}

theorem openLast_steps (h : ctx.Steps .initial c s c') : s.OpenLast := by
  have hboth := h.induction
    (P := fun s => s.tree.Grown ctx.levels s.path ∧ s.OpenLast) ?_
    ⟨TokenTree.Grown.empty ctx.levels, .singleton _⟩
  · exact hboth.2
  · rintro s c s' d hstep ⟨hg, hlast⟩
    refine ⟨grown_step hstep hg, ?_⟩
    obtain ⟨i, htakes⟩ := exists_takes_of_step hstep
    rw [htakes.state_eq]
    exact DecoderState.openLast_apply hlast hg _

/-- An instruction that completes the innermost connective leaves what it defers, and that is
nothing or the end of a type. -/
theorem Takes.deferredBy_current (ht : ctx.Takes m s' c')
    (hcurrent : m.state.current < m.state.tree.size) (hgone : m.state.current ∉ s'.path)
    (hnot : m.instruction.closes = false) :
    deferredBy (s'.tree.tokens m.state.current).toList = m.instruction.fragment? ∧
      ∀ d, m.instruction.fragment? = some d → d = .closeType := by
  have hstate := ht.state_eq
  have haccords : (ctx.effect m.state.depth m.instruction).Accords m.instruction :=
    m.instruction.effect_accords _ _
  have hfragment : ((ctx.effect m.state.depth m.instruction).token? m.state.tree.size).bind
      Token.defer? = m.instruction.fragment? := m.instruction.bind_token? _ _ _
  have hopen := m.state.current_mem_path
  cases heffect : ctx.effect m.state.depth m.instruction with
  | nothing | panics =>
    rw [hstate, heffect] at hgone
    exact absurd hopen hgone
  | append token counts =>
    rw [heffect] at hstate haccords hfragment
    have hfragment : token.defer? = m.instruction.fragment? := hfragment
    have hvalue : token.isValue = true := by
      cases counts with
      | true =>
        have hcounts := haccords.2
        rw [eq_comm, Bool.and_eq_true] at hcounts
        exact hcounts.1
      | false =>
        rw [hstate] at hgone
        exact absurd hopen hgone
    refine ⟨?_, fun d => Instruction.eq_closeType_of_value heffect hvalue⟩
    have htokens : s'.tree.tokens m.state.current =
        (m.state.tree.tokens m.state.current).push token := by
      rw [hstate]
      exact (TokenTree.tokens_push hcurrent token _).trans (if_pos rfl)
    rw [htokens, ← hfragment, deferredBy, Array.toList_push, List.getLast?_concat, Option.bind_some]
  | opens kind members =>
    rw [heffect] at hstate hfragment
    have hfragment : none = m.instruction.fragment? := hfragment
    have htokens : s'.tree.tokens m.state.current =
        (m.state.tree.tokens m.state.current).push (.scope m.state.tree.size) := by
      have htree : s'.tree = m.state.tree.openScope m.state.current kind := by
        rw [hstate]
        dsimp only [DecoderState.apply]
        split <;> rfl
      rw [htree, TokenTree.tokens_openScope hcurrent, if_pos rfl]
    rw [htokens, ← hfragment, deferredBy, Array.toList_push, List.getLast?_concat]
    refine ⟨rfl, fun d hd => ?_⟩
    cases hd
  | closes =>
    have hcloses := (m.instruction.effect_eq_closes_iff _ _).1 heffect
    rw [hnot] at hcloses
    cases hcloses

/-! ## Connectives that become complete -/

/-- In this step a connective closes because it has all its members. -/
def CompletedBy (ctx : DecodeContext) (ms : List Moment) (m : Moment) (s' : DecoderState)
    (id : Nat) : Prop :=
  ∃ count, Declared (ms ++ [m]) id count ∧ (id ∈ m.state.path ∨ id = m.state.tree.size) ∧
    id ∉ s'.path ∧ ctx.members (ms ++ [m]) s' id = count

/-- A connective that an end closes is not complete. -/
theorem Accounted.closes_eq_false (h : Accounted ctx ms m.state) (ht : ctx.Takes m s' c')
    (hcompleted : ctx.CompletedBy ms m s' m.state.current) : m.instruction.closes = false := by
  obtain ⟨count, hd, -, hgone, hfull⟩ := hcompleted
  have hopen := m.state.current_mem_path
  have hcurrent := h.current_lt
  cases hcloses : m.instruction.closes with
  | false => rfl
  | true =>
    have hd : Declared ms m.state.current count := by
      rcases declared_concat_iff.1 hd with hd | ⟨hsize, -⟩
      · exact hd
      · exact absurd hsize (Nat.ne_of_gt hcurrent)
    obtain ⟨n, -, hpos, hsum⟩ := h.awaits hd hopen
    rw [members_eq_total h.grown (.inr rfl)] at hsum
    rw [members_eq_total (h.step ht).grown (.inl hgone)] at hfull
    cases ht.change hcurrent with
    | token _ hnot =>
      rw [hcloses] at hnot
      cases hnot
    | scope _ _ hnot =>
      rw [hcloses] at hnot
      cases hnot
    | close _ _ hvalue =>
      rw [total_of_children_eq (fun _ => rfl), isMember_eq_false hvalue] at hfull
      simp at hfull
      omega

/-- A connective that becomes complete leaves no fragment, unless it is the innermost scope and its
last member is a type whose parameters follow: then it leaves the end of that type.  What it leaves
is not written later either. -/
theorem left_by_completed {body : List UInt8} (h : ctx.Trace .initial (.ofBytes body) ms s c)
    {i : Instruction} (ht : ctx.Takes ⟨s, c, i⟩ s' c')
    (hid : ctx.CompletedBy ms ⟨s, c, i⟩ s' id) :
    (deferredBy (s'.tree.tokens id).toList = none ↔ ¬ (id = s.current ∧
      ∃ t : TypeName, i = .assigned .extendedType (t, ()) ∧ t.parameters = true)) ∧
    (∀ d, deferredBy (s'.tree.tokens id).toList = some d → d = .closeType) ∧
    ∀ more s'' c'', ctx.Trace s' c' more s'' c'' → id ∉ s''.path ∧ ∀ sign child,
      (writeTokens sign child ⟨"", none, false⟩ (s''.tree.tokens id).toList).pending =
        deferredBy (s'.tree.tokens id).toList := by
  have haccounted := Accounted.of_trace h
  have hafter : Accounted ctx (ms ++ [⟨s, c, i⟩]) s' :=
    Accounted.step (m := ⟨s, c, i⟩) haccounted ht
  have hleft : deferredBy (s'.tree.tokens id).toList =
        (if id = s.current then i.fragment? else none) ∧
      (id = s.current → ∀ d, i.fragment? = some d → d = .closeType) := by
    by_cases hcurrent : id = s.current
    · subst hcurrent
      rw [if_pos rfl]
      have hnot := Accounted.closes_eq_false (m := ⟨s, c, i⟩) haccounted ht hid
      obtain ⟨count, -, -, hgone, -⟩ := hid
      obtain ⟨hlast, hclose⟩ := ht.deferredBy_current haccounted.current_lt hgone hnot
      exact ⟨hlast, fun _ => hclose⟩
    · rw [if_neg hcurrent]
      refine ⟨?_, fun heq => absurd heq hcurrent⟩
      obtain ⟨count, -, hopen, -, -⟩ := hid
      rcases hopen with hopen | hnew
      · obtain ⟨inner, hinner⟩ := (openLast_steps h.steps).exists_scope hopen hcurrent
        rw [ht.tokens_eq haccounted.current_lt hcurrent, deferredBy, hinner]
        rfl
      · -- opened and complete in the same step
        have hempty : s.tree.tokens id = #[] := by
          rw [TokenTree.tokens, Array.getElem?_eq_none (Nat.le_of_eq hnew.symm)]
          rfl
        rw [ht.tokens_eq haccounted.current_lt hcurrent, hempty]
        rfl
  obtain ⟨hleft, hclose⟩ := hleft
  refine ⟨?_, ?_, ?_⟩
  · rw [hleft, ← Instruction.fragment?_eq_closeType_iff]
    by_cases hcurrent : id = s.current
    · rw [if_pos hcurrent]
      cases hfragment : i.fragment? with
      | none => simp
      | some d => simp [hcurrent, hclose hcurrent d hfragment]
    · simp [hcurrent]
  · intro d hd
    rw [hleft] at hd
    split at hd
    · rename_i hcurrent
      exact hclose hcurrent d hd
    · cases hd
  · intro more s'' c'' htrace
    obtain ⟨count, hd, -, hgone, -⟩ := hid
    obtain ⟨hstill, htokens, -⟩ :=
      hafter.stays_closed (hafter.declared_lt id count hd).2 hgone htrace
    refine ⟨hstill, fun sign child => ?_⟩
    rw [htokens, pending_writeTokens, deferredBy]
    cases (s'.tree.tokens id).toList.getLast? <;> rfl

/-- A conjunction of one, in it a disjunction of one, in it a type without parameters: the type
completes both. -/
theorem left_by_completed_of_nested :
    let ctx := ({} : Options).context 64
    ∃ ms s c i s' c', ctx.Trace .initial
        (.ofBytes [0xdb, 1, 0, 0, 0, 0xdc, 1, 0, 0, 0, 0xda, 0, 1, 0, 0, 0x61]) ms s c ∧
      ctx.Takes ⟨s, c, i⟩ s' c' ∧ ctx.CompletedBy ms ⟨s, c, i⟩ s' 1 ∧
      ctx.CompletedBy ms ⟨s, c, i⟩ s' 2 ∧ deferredBy (s'.tree.tokens 1).toList = none ∧
      deferredBy (s'.tree.tokens 2).toList = none := by
  let ctx := ({} : Options).context 64
  let body : List UInt8 := [0xdb, 1, 0, 0, 0, 0xdc, 1, 0, 0, 0, 0xda, 0, 1, 0, 0, 0x61]
  let outer : Moment := ⟨.initial, ⟨body, 0⟩, .assigned (.connective .conjunction) (1, ())⟩
  let s₁ := outer.state.apply (ctx.effect 0 outer.instruction)
  let inner : Moment := ⟨s₁, ⟨body.drop 5, 5⟩, .assigned (.connective .disjunction) (1, ())⟩
  let s₂ := s₁.apply (ctx.effect 1 inner.instruction)
  let last : Moment := ⟨s₂, ⟨body.drop 10, 10⟩, .assigned .extendedType (⟨"", "a", "", false⟩, ())⟩
  let s₃ := s₂.apply (ctx.effect 2 last.instruction)
  have htrace : ctx.Trace .initial (.ofBytes body) [outer, inner] s₂ ⟨body.drop 10, 10⟩ :=
    .cons (m := outer) ⟨rfl, rfl, rfl⟩ (.cons (m := inner) ⟨rfl, rfl, rfl⟩ (.nil _ _))
  have hfits : last.instruction.Fits := ⟨⟨by decide, by decide, by decide, nofun⟩, trivial⟩
  have htakes : ctx.Takes last s₃ ⟨[], 16⟩ :=
    ctx.takes_of_write hfits (by decide) (by decide +kernel) (by decide +kernel)
  have hconjunction : ctx.CompletedBy [outer, inner] last s₃ 1 :=
    ⟨1, ⟨outer, by simp, rfl, rfl⟩, by decide, by decide, by decide +kernel⟩
  have hdisjunction : ctx.CompletedBy [outer, inner] last s₃ 2 :=
    ⟨1, ⟨inner, by simp, rfl, rfl⟩, by decide, by decide, by decide +kernel⟩
  have hplain : ¬ ∃ t : TypeName, last.instruction = .assigned .extendedType (t, ()) ∧
      t.parameters = true := by
    rintro ⟨t, ht, hparameters⟩
    cases ht
    cases hparameters
  exact ⟨_, s₂, _, last.instruction, s₃, _, htrace, htakes, hconjunction, hdisjunction,
    (left_by_completed htrace htakes hconjunction).1.2 fun h => hplain h.2,
    (left_by_completed htrace htakes hdisjunction).1.2 fun h => hplain h.2⟩

/-- A disjunction of one, in it a type with a parameter.  The type completes the disjunction, so its
parameter stands behind the disjunction and its end nowhere. -/
theorem type_without_end :
    let ctx := ({} : Options).context 64
    let body := [0xdc, 1, 0, 0, 0, 0xda, 0, 1, 0, 1, 0x61, 0xe4, 0xc1, 1, 0xe5]
    ∃ ms s c i s' c', ctx.Trace .initial (.ofBytes body) ms s c ∧ ctx.Takes ⟨s, c, i⟩ s' c' ∧
      ctx.CompletedBy ms ⟨s, c, i⟩ s' 1 ∧
      deferredBy (s'.tree.tokens 1).toList = some .closeType ∧
      (ctx.decode body).tree.render false = "(<a)(1)" := by
  intro ctx body
  let first : Moment := ⟨.initial, ⟨body, 0⟩, .assigned (.connective .disjunction) (1, ())⟩
  let s₁ := first.state.apply (ctx.effect 0 first.instruction)
  let last : Moment := ⟨s₁, ⟨body.drop 5, 5⟩, .assigned .extendedType (⟨"", "a", "", true⟩, ())⟩
  let s₂ := s₁.apply (ctx.effect 1 last.instruction)
  have htrace : ctx.Trace .initial (.ofBytes body) [first] s₁ ⟨body.drop 5, 5⟩ :=
    .cons (m := first) ⟨rfl, rfl, rfl⟩ (.nil _ _)
  have hfits : last.instruction.Fits := ⟨⟨by decide, by decide, by decide, nofun⟩, trivial⟩
  have htakes : ctx.Takes last s₂ ⟨body.drop 11, 11⟩ :=
    ctx.takes_of_write hfits (by decide) (by decide +kernel) (by decide +kernel)
  refine ⟨_, s₁, _, last.instruction, s₂, _, htrace, htakes, ?_, rfl, by decide +kernel⟩
  exact ⟨1, ⟨first, by simp, rfl, rfl⟩, by decide, by decide, by decide +kernel⟩

end DecodeContext

end Dxb
