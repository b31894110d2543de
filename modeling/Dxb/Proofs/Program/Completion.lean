import Dxb.Proofs.Program.Connectives

/-!
# How connectives are completed

A connective closes in the step that completes its last member, unless an end closes it before
(`closes_iff`); a scope that closes counts as one member of the scope around it, however many close
in one step (`counts_once`), and a closed scope stays as it is (`stays_closed`).
`connectives_keep_count` says all this of every connective at every moment of decoding.
-/

namespace Dxb

namespace DecodeContext

variable {ctx : DecodeContext} {ms : List Moment} {m : Moment} {s s' : DecoderState} {c c' : Cursor}

namespace Accounted

/-! ## Closing -/

/-- A connective closes exactly with its last member, or with an end. -/
theorem closes_iff (h : Accounted ctx ms m.state) (ht : ctx.Takes m s' c') {id count : Nat}
    (hd : Declared ms id count) (hopen : id ∈ m.state.path) :
    id ∉ s'.path ↔ ctx.members (ms ++ [m]) s' id = count ∨
      (m.instruction.closes = true ∧ m.state.current = id) := by
  have hafter := h.step ht
  constructor
  · intro hgone
    rw [members_eq_total hafter.grown (.inl hgone)]
    exact ((h.settled ht).gone id count hd hopen hgone).imp_right fun hclosed =>
      ⟨hclosed.1, hclosed.2.1⟩
  · rintro (hall | ⟨hcloses, rfl⟩) hstill
    · obtain ⟨n, -, hpos, hsum⟩ := hafter.awaits (declared_concat_iff.2 (.inl hd)) hstill
      omega
    · cases ht.change h.current_lt with
      | token _ hnot =>
        rw [hcloses] at hnot
        cases hnot
      | scope _ _ hnot =>
        rw [hcloses] at hnot
        cases hnot
      | @close scope outer hscopes =>
        have hcurrent : m.state.current = scope.id := by
          unfold DecoderState.current
          rw [hscopes]
        have hspine : m.state.tree.Spine (scope.id :: (outer.map OpenScope.id ++
            [TokenTree.root])) := by
          have hspine := h.grown.spine
          unfold DecoderState.path at hspine
          rwa [hscopes] at hspine
        have houter : m.state.current ∈ outer.map OpenScope.id ++ [TokenTree.root] :=
          DecoderState.mem_of_mem_completeMember hstill
        have hlt := hspine.lt_head h.grown.toNamed _ houter
        omega

/-! ## Counting in the scope around -/

/-- When the only scope that may be open in another one is closed, the other is complete in itself:
closed too, or the current scope. -/
theorem closed_or_current (h : Accounted ctx ms s) {outer : Nat}
    (hclosed : ∀ inner ∈ s.tree.children outer, inner ∉ s.path) :
    outer ∉ s.path ∨ outer = s.current := by
  by_contra hno
  rw [not_or, not_not] at hno
  obtain ⟨inner, hinner, hopen⟩ := DecoderState.exists_open_inner h.grown hno.1 hno.2
  exact hclosed inner hinner hopen

/-- A scope that closes in a step counts as one member of the scope around it. -/
theorem counts_once_of_open (h : Accounted ctx ms m.state) (ht : ctx.Takes m s' c') {id outer : Nat}
    (hopen : id ∈ m.state.path) (hgone : id ∉ s'.path) (hm : id ∈ s'.tree.children outer) :
    ctx.members (ms ++ [m]) s' outer = ctx.members ms m.state outer + 1 := by
  have hafter := h.step ht
  have hle := DecoderState.le_current h.grown hopen
  have hne : outer ≠ m.state.current := by
    rintro rfl
    have hlt := (hafter.grown.lt_of_mem_children hm).1
    omega
  have hchildren := ht.children_eq h.current_lt hne
  rw [hchildren] at hm
  have hbefore : ctx.members ms m.state outer + 1 = ctx.total ms m.state.tree outer :=
    members_add_one_of_inner h.grown (h.grown.spine.outer_mem h.grown.toNamed hopen hm) hne
  have hclosed : ∀ inner ∈ s'.tree.children outer, inner ∉ s'.path := by
    intro inner hinner hstill
    rw [hchildren] at hinner
    rcases ht.path_subset h.current_lt hstill with hwas | rfl
    · rw [h.grown.spine.inner_unique h.grown.toNamed hwas hopen hinner hm] at hstill
      exact hgone hstill
    · exact absurd (h.grown.lt_of_mem_children hinner).2 (Nat.lt_irrefl _)
  rw [members_eq_total hafter.grown (hafter.closed_or_current hclosed),
    ht.total_eq h.current_lt hne]
  omega

/-! ## Opening -/

/-- A connective is opened in the current scope. -/
theorem mem_children_of_opened (h : Accounted ctx ms m.state) (ht : ctx.Takes m s' c')
    {count : Nat} (harity : m.instruction.arity? = some count) :
    m.state.tree.size ∈ s'.tree.children m.state.current := by
  obtain ⟨-, kind, rfl⟩ := ht.opens h.current_lt harity
  dsimp only
  rw [TokenTree.children_openScope h.current_lt, if_pos rfl]
  exact List.mem_append_right _ (List.mem_singleton_self _)

/-- A connective with members is the current scope from then on. -/
theorem opened_of_pos (h : Accounted ctx ms m.state) (ht : ctx.Takes m s' c') {count : Nat}
    (harity : m.instruction.arity? = some count) (hpos : 0 < count) :
    s'.current = m.state.tree.size ∧
      ctx.members (ms ++ [m]) s' m.state.current = ctx.members ms m.state m.state.current := by
  have hafter := h.step ht
  obtain ⟨hmember, kind, rfl⟩ := ht.opens h.current_lt harity
  rw [if_neg (Nat.ne_of_gt hpos)] at hafter ⊢
  refine ⟨rfl, ?_⟩
  have hinner : ctx.members (ms ++ [m]) _ m.state.current + 1 =
      ctx.total (ms ++ [m]) (m.state.tree.openScope m.state.current kind) m.state.current :=
    members_add_one_of_inner hafter.grown (List.mem_cons_of_mem _ m.state.current_mem_path)
      (Nat.ne_of_lt h.current_lt)
  rw [total_openScope hmember h.current_lt, if_pos rfl] at hinner
  rw [members_eq_total h.grown (.inr rfl)]
  omega

/-- A connective without members closes at once, and is a member of the scope around it. -/
theorem opened_of_zero (h : Accounted ctx ms m.state) (ht : ctx.Takes m s' c')
    (harity : m.instruction.arity? = some 0) :
    m.state.tree.size ∉ s'.path ∧
      ctx.members (ms ++ [m]) s' m.state.current = ctx.members ms m.state m.state.current + 1 := by
  have hafter := h.step ht
  have hsubset : ∀ id ∈ s'.path, id ∈ m.state.path ∨ id = m.state.tree.size :=
    fun _ => ht.path_subset h.current_lt
  obtain ⟨hmember, kind, rfl⟩ := ht.opens h.current_lt harity
  rw [if_pos rfl] at hafter hsubset ⊢
  have hnew : m.state.tree.size ∉
      DecoderState.path ⟨m.state.tree.openScope m.state.current kind,
        completeMember m.state.openScopes⟩ := by
    intro hmem
    have hwas : m.state.tree.size ∈ m.state.path := DecoderState.mem_of_mem_completeMember hmem
    exact absurd (h.grown.open_lt _ hwas) (Nat.lt_irrefl _)
  refine ⟨hnew, ?_⟩
  have hclosed : ∀ inner ∈ (m.state.tree.openScope m.state.current kind).children m.state.current,
      inner ∉ DecoderState.path ⟨m.state.tree.openScope m.state.current kind,
        completeMember m.state.openScopes⟩ := by
    intro inner hinner hstill
    rcases hsubset inner hstill with hwas | rfl
    · have hle := DecoderState.le_current h.grown hwas
      have hlt := (hafter.grown.lt_of_mem_children hinner).1
      omega
    · exact hnew hstill
  rw [members_eq_total hafter.grown (hafter.closed_or_current hclosed),
    members_eq_total h.grown (.inr rfl), total_openScope hmember h.current_lt, if_pos rfl]

/-! ## Afterwards -/

theorem closed_step (h : Accounted ctx ms m.state) (ht : ctx.Takes m s' c') {id : Nat}
    (hid : id < m.state.tree.size) (hclosed : id ∉ m.state.path) :
    id ∉ s'.path ∧ s'.tree.tokens id = m.state.tree.tokens id ∧
      ctx.members (ms ++ [m]) s' id = ctx.members ms m.state id := by
  have hne : id ≠ m.state.current := fun heq => hclosed (heq ▸ m.state.current_mem_path)
  have hstill : id ∉ s'.path := by
    intro hopen
    rcases ht.path_subset h.current_lt hopen with hwas | rfl
    · exact hclosed hwas
    · exact absurd hid (Nat.lt_irrefl _)
  refine ⟨hstill, ht.tokens_eq h.current_lt hne, ?_⟩
  rw [members_eq_total (h.step ht).grown (.inl hstill), members_eq_total h.grown (.inl hclosed),
    ht.total_eq h.current_lt hne]

theorem stays_closed (h : Accounted ctx ms s) {id : Nat} (hid : id < s.tree.size)
    (hclosed : id ∉ s.path) {more : List Moment} (htrace : ctx.Trace s c more s' c') :
    id ∉ s'.path ∧ s'.tree.tokens id = s.tree.tokens id ∧
      ctx.members (ms ++ more) s' id = ctx.members ms s id := by
  have hkept := Trace.induction (P := fun before t => Accounted ctx before t ∧ id < t.tree.size ∧
    id ∉ t.path ∧ t.tree.tokens id = s.tree.tokens id ∧
    ctx.members before t id = ctx.members ms s id) htrace ⟨h, hid, hclosed, rfl, rfl⟩ ?_
  · exact hkept.2.2
  · rintro before m t' d ht ⟨hbefore, hlt, hnot, htokens, hmembers⟩
    obtain ⟨hnot', htokens', hmembers'⟩ := hbefore.closed_step ht hlt hnot
    exact ⟨hbefore.step ht, Nat.lt_of_lt_of_le hlt ht.size_le, hnot',
      htokens'.trans htokens, hmembers'.trans hmembers⟩

end Accounted

/-! ## Everything together -/

/-- What holds at a moment of a connective that was opened for `count` members. -/
structure KeepsCount (ctx : DecodeContext) (ms : List Moment) (s : DecoderState) (c : Cursor)
    (id count : Nat) : Prop where
  members_le : ctx.members ms s id ≤ count
  /-- While it is open, it awaits one more member at least. -/
  awaits : id ∈ s.path →
    ∃ n, ⟨id, some n⟩ ∈ s.openScopes ∧ 0 < n ∧ ctx.members ms s id + n = count
  /-- The next step closes it exactly if it completes the last member or is its end. -/
  closes_iff : id ∈ s.path → ∀ i s' c', ctx.Takes ⟨s, c, i⟩ s' c' →
    (id ∉ s'.path ↔ ctx.members (ms ++ [⟨s, c, i⟩]) s' id = count ∨
      (i.closes = true ∧ s.current = id))
  /-- The step that closes it counts it once in the one scope around it. -/
  counts_once : id ∈ s.path → ∀ i s' c', ctx.Takes ⟨s, c, i⟩ s' c' → id ∉ s'.path →
    ∃ outer, (∀ p, id ∈ s'.tree.children p ↔ p = outer) ∧
      ctx.members (ms ++ [⟨s, c, i⟩]) s' outer = ctx.members ms s outer + 1
  /-- Once it is closed, nothing is appended to it and nothing more is counted. -/
  stays_closed : id ∉ s.path → ∀ more s' c', ctx.Trace s c more s' c' →
    id ∉ s'.path ∧ s'.tree.tokens id = s.tree.tokens id ∧
      ctx.members (ms ++ more) s' id = ctx.members ms s id

theorem Accounted.keepsCount (h : Accounted ctx ms s) (c : Cursor) {id count : Nat}
    (hd : Declared ms id count) : ctx.KeepsCount ms s c id count where
  members_le := h.members_le hd
  awaits hopen := h.awaits hd hopen
  closes_iff hopen i s' c' ht := Accounted.closes_iff (m := ⟨s, c, i⟩) h ht hd hopen
  counts_once hopen i s' c' ht hgone := by
    have hnamed := (grown_step ht.step h.grown).toNamed
    obtain ⟨hpos, hlt⟩ := h.declared_lt id count hd
    have hsize := ht.size_le
    obtain ⟨outer, place, -, hplace⟩ := hnamed.named id hpos (Nat.lt_of_lt_of_le hlt hsize)
    have hm : id ∈ s'.tree.children outer := TokenTree.mem_children_iff.2 ⟨place, hplace⟩
    refine ⟨outer, fun p => ⟨fun hp => hnamed.outer_eq hp hm, fun hp => hp ▸ hm⟩, ?_⟩
    exact Accounted.counts_once_of_open (m := ⟨s, c, i⟩) h ht hopen hgone hm
  stays_closed hclosed more s' c' htrace :=
    h.stays_closed (h.declared_lt id count hd).2 hclosed htrace

/-- At every moment of decoding any bytes: the values in a scope are its members among them and
those that do not count; every connective that was opened keeps its count; and a connective that is
opened next is the current scope with no member more in the scope around it, or without members is
closed and counted there at once. -/
theorem connectives_keep_count {body : List UInt8}
    (h : ctx.Trace .initial (.ofBytes body) ms s c) :
    (∀ id, s.tree.valueTokens id = ctx.values ms id + ctx.asides ms id) ∧
      (∀ id count, Declared ms id count → ctx.KeepsCount ms s c id count) ∧
      ∀ i s' c' count, ctx.Takes ⟨s, c, i⟩ s' c' → i.arity? = some count →
        s.tree.size ∈ s'.tree.children s.current ∧
        (count = 0 → s.tree.size ∉ s'.path ∧
          ctx.members (ms ++ [⟨s, c, i⟩]) s' s.current = ctx.members ms s s.current + 1) ∧
        (0 < count → s'.current = s.tree.size ∧
          ctx.members (ms ++ [⟨s, c, i⟩]) s' s.current = ctx.members ms s s.current) := by
  have haccounted := Accounted.of_trace h
  refine ⟨haccounted.written, fun id count hd => haccounted.keepsCount c hd, ?_⟩
  intro i s' c' count ht harity
  refine ⟨haccounted.mem_children_of_opened (m := ⟨s, c, i⟩) ht harity, ?_,
    haccounted.opened_of_pos (m := ⟨s, c, i⟩) ht harity⟩
  rintro rfl
  exact haccounted.opened_of_zero (m := ⟨s, c, i⟩) ht harity

/-- A conjunction of two, in it a disjunction of one, in it a value: the disjunction is complete,
and the conjunction has one member. -/
theorem connectives_keep_count_of_nested :
    let ctx := ({} : Options).context 64
    ∃ ms s c, ctx.Trace .initial
        (.ofBytes [0xdb, 2, 0, 0, 0, 0xdc, 1, 0, 0, 0, 0xc6]) ms s c ∧
      ctx.KeepsCount ms s c 1 2 ∧ ctx.KeepsCount ms s c 2 1 ∧
      s.openScopes = [⟨1, some 1⟩] ∧ ctx.members ms s 1 = 1 := by
  let ctx := ({} : Options).context 64
  let body : List UInt8 := [0xdb, 2, 0, 0, 0, 0xdc, 1, 0, 0, 0, 0xc6]
  let outer : Moment := ⟨.initial, ⟨body, 0⟩, .assigned (.connective .conjunction) (2, ())⟩
  let s₁ := outer.state.apply (ctx.effect 0 outer.instruction)
  let inner : Moment := ⟨s₁, ⟨body.drop 5, 5⟩, .assigned (.connective .disjunction) (1, ())⟩
  let s₂ := s₁.apply (ctx.effect 1 inner.instruction)
  let last : Moment := ⟨s₂, ⟨body.drop 10, 10⟩, .assigned (.constant .yes) ()⟩
  let s₃ := s₂.apply (ctx.effect 2 last.instruction)
  have htrace : ctx.Trace .initial (.ofBytes body) [outer, inner, last] s₃ ⟨[], 11⟩ :=
    .cons (m := outer) ⟨rfl, rfl, rfl⟩
      (.cons (m := inner) ⟨rfl, rfl, rfl⟩ (.cons (m := last) ⟨rfl, rfl, rfl⟩ (.nil _ _)))
  have hkeeps := (connectives_keep_count htrace).2.1
  have hconjunction := hkeeps 1 2 ⟨outer, List.mem_cons_self, rfl, rfl⟩
  have hdisjunction := hkeeps 2 1
    ⟨inner, List.mem_cons_of_mem _ List.mem_cons_self, rfl, rfl⟩
  have hopen : s₃.openScopes = [⟨1, some 1⟩] := rfl
  obtain ⟨n, hn, -, hsum⟩ := hconjunction.awaits List.mem_cons_self
  rw [hopen] at hn
  cases List.mem_singleton.1 hn
  exact ⟨_, s₃, _, htrace, hconjunction, hdisjunction, hopen, Nat.succ.inj hsum⟩

end DecodeContext

end Dxb
