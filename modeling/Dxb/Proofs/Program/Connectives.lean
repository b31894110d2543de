import Dxb.Proofs.Program.Members

/-!
# Connectives count their members

A connective awaits what is missing from its declared number (`Balanced`).  A member that has been
appended but not yet counted leaves the innermost scope one ahead, and so is every scope around an
open one, since its member there is still to be completed; `completeMember` brings the list of open
scopes back into balance, through all connectives that become complete (`Balanced.completeMember`).
Every step keeps the accounts (`Accounted.step`), and hence what is said of one connective at one
moment holds of all connectives at all moments (`connectives_keep_count`).
-/

namespace Dxb

/-- Every declared scope awaits, beyond what it has, what is missing from its declared number.  The
innermost scope is `owed` members ahead of what was counted, and the ones around it one each. -/
def Balanced (total : Nat → Nat) (D : Nat → Nat → Prop) : (owed : Nat) → List OpenScope → Prop
  | _, [] => True
  | owed, scope :: outer =>
    (∀ count, D scope.id count → ∃ n, scope.awaiting = some n ∧ 0 < n ∧
      total scope.id + n = count + owed) ∧ Balanced total D 1 outer

namespace Balanced

variable {total total' : Nat → Nat} {D D' : Nat → Nat → Prop} {owed : Nat}
  {scope : OpenScope} {scopes outer : List OpenScope}

theorem congr (h : Balanced total D owed scopes) (ht : ∀ a ∈ scopes, total' a.id = total a.id)
    (hD : ∀ a ∈ scopes, ∀ count, D' a.id count → D a.id count) :
    Balanced total' D' owed scopes := by
  induction scopes generalizing owed with
  | nil => exact trivial
  | cons scope outer ih =>
    obtain ⟨hhead, htail⟩ := h
    refine ⟨?_, ih htail (fun a ha => ht a (List.mem_cons_of_mem _ ha))
      fun a ha => hD a (List.mem_cons_of_mem _ ha)⟩
    intro count hd
    rw [ht scope List.mem_cons_self]
    exact hhead count (hD scope List.mem_cons_self count hd)

/-- A further member in the innermost scope is owed to it. -/
theorem gain (h : Balanced total D 0 (scope :: outer))
    (hhead : total' scope.id = total scope.id + 1)
    (ht : ∀ a ∈ outer, total' a.id = total a.id)
    (hD : ∀ a ∈ scope :: outer, ∀ count, D' a.id count → D a.id count) :
    Balanced total' D' 1 (scope :: outer) := by
  obtain ⟨hscope, hrest⟩ := h
  refine ⟨?_, hrest.congr ht fun a ha => hD a (List.mem_cons_of_mem _ ha)⟩
  intro count hd
  obtain ⟨n, hn, hpos, hsum⟩ := hscope count (hD scope List.mem_cons_self count hd)
  exact ⟨n, hn, hpos, by omega⟩

theorem of_mem (h : Balanced total D 1 scopes) {a : OpenScope} (ha : a ∈ scopes) {count : Nat}
    (hd : D a.id count) : ∃ n, a.awaiting = some n ∧ 0 < n ∧ total a.id + n = count + 1 := by
  induction scopes with
  | nil => cases ha
  | cons scope outer ih =>
    rcases List.mem_cons.1 ha with rfl | ha
    · exact h.1 count hd
    · exact ih h.2 ha

/-- Completing a member settles what is owed. -/
theorem completeMember (h : Balanced total D 1 scopes) :
    Balanced total D 0 (completeMember scopes) := by
  induction scopes with
  | nil => exact trivial
  | cons scope outer ih =>
    obtain ⟨hscope, hrest⟩ := h
    unfold Dxb.completeMember
    split
    · rename_i hnone
      refine ⟨?_, hrest⟩
      intro count hd
      obtain ⟨n, hn, -⟩ := hscope count hd
      rw [hnone] at hn
      cases hn
    · rename_i n hsome
      split
      · refine ⟨?_, hrest⟩
        intro count hd
        obtain ⟨k, hk, -, hsum⟩ := hscope count hd
        rw [hsome] at hk
        cases hk
        exact ⟨n - 1, rfl, by omega, by dsimp only; omega⟩
      · exact ih hrest

/-- A scope that closes because a member was completed has all its members. -/
theorem total_eq_of_gone (h : Balanced total D 1 scopes) {id : Nat}
    (hopen : id ∈ scopes.map OpenScope.id)
    (hgone : id ∉ (Dxb.completeMember scopes).map OpenScope.id) {count : Nat} (hd : D id count) :
    total id = count := by
  induction scopes with
  | nil => cases hopen
  | cons scope outer ih =>
    obtain ⟨hscope, hrest⟩ := h
    unfold Dxb.completeMember at hgone
    split at hgone
    · exact absurd hopen hgone
    · rename_i n hsome
      split at hgone
      · exact absurd hopen hgone
      · rcases List.mem_cons.1 hopen with rfl | hopen
        · obtain ⟨k, hk, hpos, hsum⟩ := hscope count hd
          rw [hsome] at hk
          cases hk
          omega
        · exact ih hrest hopen hgone

end Balanced

namespace DecodeContext

variable {ctx : DecodeContext} {ms : List Moment} {m : Moment} {s s' : DecoderState} {c c' : Cursor}

/-! ## What one step changes -/

theorem Takes.tokens_eq (h : ctx.Takes m s' c') (hcurrent : m.state.current < m.state.tree.size)
    {id : Nat} (hid : id ≠ m.state.current) : s'.tree.tokens id = m.state.tree.tokens id := by
  cases h.change hcurrent with
  | token _ _ _ _ htokens _ => exact htokens id hid
  | scope kind => rw [TokenTree.tokens_openScope hcurrent, if_neg hid]
  | close => rfl

theorem Takes.children_eq (h : ctx.Takes m s' c') (hcurrent : m.state.current < m.state.tree.size)
    {id : Nat} (hid : id ≠ m.state.current) : s'.tree.children id = m.state.tree.children id := by
  unfold TokenTree.children
  rw [h.tokens_eq hcurrent hid]

theorem values_of_ne {id : Nat} (hid : id ≠ m.state.current) :
    ctx.values (ms ++ [m]) id = ctx.values ms id := by
  rw [values_concat, if_neg fun h => hid h.1.symm, Nat.add_zero]

theorem Takes.total_eq (h : ctx.Takes m s' c') (hcurrent : m.state.current < m.state.tree.size)
    {id : Nat} (hid : id ≠ m.state.current) :
    ctx.total (ms ++ [m]) s'.tree id = ctx.total ms m.state.tree id := by
  rw [total, values_of_ne hid, h.children_eq hcurrent hid, total]

/-- A connective is opened, and closes again if it has no members. -/
theorem Takes.opens (h : ctx.Takes m s' c') (hcurrent : m.state.current < m.state.tree.size)
    {count : Nat} (harity : m.instruction.arity? = some count) :
    ctx.isMember m = false ∧ ∃ kind, s' = ⟨m.state.tree.openScope m.state.current kind,
      if count = 0 then completeMember m.state.openScopes
      else ⟨m.state.tree.size, some count⟩ :: m.state.openScopes⟩ := by
  cases h.change hcurrent with
  | token hnone =>
    rw [harity] at hnone
    cases hnone
  | scope kind hvalue =>
    refine ⟨isMember_eq_false hvalue, kind, ?_⟩
    simp only [harity, Option.some.injEq]
  | close _ hnone =>
    rw [harity] at hnone
    cases hnone

/-- A step opens no scope but a new one. -/
theorem Takes.path_subset (h : ctx.Takes m s' c')
    (hcurrent : m.state.current < m.state.tree.size) {id : Nat} (hid : id ∈ s'.path) :
    id ∈ m.state.path ∨ id = m.state.tree.size := by
  cases h.change hcurrent with
  | token =>
    left
    split at hid
    · exact DecoderState.mem_of_mem_completeMember hid
    · exact hid
  | scope kind =>
    split at hid
    · exact .inl (DecoderState.mem_of_mem_completeMember hid)
    · rcases List.mem_cons.1 hid with rfl | hid
      · exact .inr rfl
      · exact .inl hid
  | close hopen =>
    left
    unfold DecoderState.path
    rw [hopen]
    exact List.mem_cons_of_mem _ (DecoderState.mem_of_mem_completeMember hid)

/-! ## What every step keeps -/

/-- The accounts after the instructions `ms`. -/
structure Accounted (ctx : DecodeContext) (ms : List Moment) (s : DecoderState) : Prop where
  grown : s.tree.Grown ctx.levels s.path
  written : ∀ id, s.tree.valueTokens id = ctx.values ms id + ctx.asides ms id
  /-- Nothing was appended to scopes that are still to come. -/
  fresh : ∀ id, s.tree.size ≤ id → ctx.values ms id = 0
  declared_lt : ∀ id count, Declared ms id count → 0 < id ∧ id < s.tree.size
  balanced : Balanced (ctx.total ms s.tree) (Declared ms) 0 s.openScopes
  closed_le : ∀ id count, Declared ms id count → id ∉ s.path → ctx.total ms s.tree id ≤ count

namespace Accounted

theorem initial (ctx : DecodeContext) : Accounted ctx [] .initial where
  grown := TokenTree.Grown.empty ctx.levels
  written id := by cases id <;> rfl
  fresh _ _ := rfl
  declared_lt _ _ := fun ⟨_, hm, _⟩ => nomatch hm
  balanced := trivial
  closed_le _ _ := fun ⟨_, hm, _⟩ => nomatch hm

theorem current_lt (h : Accounted ctx ms s) : s.current < s.tree.size :=
  h.grown.open_lt _ s.current_mem_path

theorem total_new (h : Accounted ctx ms s) : ctx.total ms s.tree s.tree.size = 0 := by
  rw [total, h.fresh _ (Nat.le_refl _), TokenTree.children_eq_nil (Nat.le_refl _)]
  rfl

/-- A connective is not the root. -/
theorem mem_openScopes (h : Accounted ctx ms s) {id count : Nat} (hd : Declared ms id count)
    (hopen : id ∈ s.path) : id ∈ s.openScopes.map OpenScope.id := by
  rcases List.mem_append.1 hopen with hid | hid
  · exact hid
  · have hpos := (h.declared_lt id count hd).1
    have hroot : TokenTree.root = 0 := rfl
    rw [List.mem_singleton.1 hid, hroot] at hpos
    exact absurd hpos (Nat.lt_irrefl 0)

/-- A further member in the current scope leaves it, and the scopes around it, one ahead. -/
theorem owed (h : Accounted ctx ms s) {total : Nat → Nat} {D : Nat → Nat → Prop}
    (ht : ∀ id, total id = ctx.total ms s.tree id + if s.current = id then 1 else 0)
    (hD : ∀ id count, id < s.tree.size → D id count → Declared ms id count) :
    Balanced total D 1 s.openScopes := by
  obtain ⟨tree, openScopes⟩ := s
  cases openScopes with
  | nil => exact trivial
  | cons scope outer =>
    refine h.balanced.gain ?_ ?_ ?_
    · have hcurrent : DecoderState.current ⟨tree, scope :: outer⟩ = scope.id := rfl
      rw [ht, if_pos hcurrent]
    · intro a ha
      have hlt : a.id < scope.id := h.grown.spine.lt_head h.grown.toNamed a.id
        (List.mem_append_left _ (List.mem_map_of_mem ha))
      rw [ht, if_neg]
      · rfl
      · intro heq
        have heq : scope.id = a.id := heq
        omega
    · intro a ha count
      exact hD a.id count
        (h.grown.open_lt a.id (List.mem_append_left _ (List.mem_map_of_mem ha)))

/-- What a step leaves: the open scopes in balance, and every connective that closed complete,
unless it is the scope that an end closed. -/
structure Settled (ctx : DecodeContext) (ms : List Moment) (m : Moment) (s' : DecoderState) :
    Prop where
  balanced : Balanced (ctx.total (ms ++ [m]) s'.tree) (Declared (ms ++ [m])) 0 s'.openScopes
  gone : ∀ id count, Declared ms id count → id ∈ m.state.path → id ∉ s'.path →
    ctx.total (ms ++ [m]) s'.tree id = count ∨ (m.instruction.closes = true ∧
      m.state.current = id ∧ ctx.total (ms ++ [m]) s'.tree id < count)

/-- When a member was completed, what closed has all its members. -/
theorem total_eq_of_gone {t : TokenTree} {scopes : List OpenScope}
    (howed : Balanced (ctx.total (ms ++ [m]) t) (Declared (ms ++ [m])) 1 scopes) {id count : Nat}
    (hd : Declared ms id count) (hopen : id ∈ scopes.map OpenScope.id)
    (hgone : id ∉ DecoderState.path ⟨t, completeMember scopes⟩) :
    ctx.total (ms ++ [m]) t id = count :=
  howed.total_eq_of_gone hopen (fun hmem => hgone (List.mem_append_left _ hmem))
    (declared_concat_iff.2 (.inl hd))

theorem settled_token (h : Accounted ctx ms m.state) {t : TokenTree}
    (harity : m.instruction.arity? = none)
    (hchildren : ∀ id, t.children id = m.state.tree.children id) :
    Settled ctx ms m ⟨t, if ctx.isMember m then completeMember m.state.openScopes
      else m.state.openScopes⟩ := by
  have htotal := @total_of_children_eq ctx ms m t hchildren
  cases hmember : ctx.isMember m with
  | true =>
    have howed := h.owed (fun id => by simpa [hmember] using htotal id)
      fun id count _ => declared_of_concat harity
    rw [if_pos rfl]
    refine ⟨howed.completeMember, ?_⟩
    intro id count hd hopen hgone
    exact .inl (total_eq_of_gone howed hd (h.mem_openScopes hd hopen) hgone)
  | false =>
    rw [if_neg nofun]
    refine ⟨h.balanced.congr ?_ fun a _ count => declared_of_concat harity, ?_⟩
    · intro a _
      rw [htotal, hmember, if_neg (fun h => nomatch h.2), Nat.add_zero]
    · intro id count _ hopen hgone
      exact absurd hopen hgone

theorem settled_scope (h : Accounted ctx ms m.state) (hmember : ctx.isMember m = false)
    (kind : ScopeKind) :
    Settled ctx ms m ⟨m.state.tree.openScope m.state.current kind,
      if m.instruction.arity? = some 0 then completeMember m.state.openScopes
      else ⟨m.state.tree.size, m.instruction.arity?⟩ :: m.state.openScopes⟩ := by
  have htotal := @total_openScope ctx ms m hmember h.current_lt kind
  have hD : ∀ id count, id < m.state.tree.size → Declared (ms ++ [m]) id count →
      Declared ms id count := by
    intro id count hlt hd
    rcases declared_concat_iff.1 hd with hd | ⟨heq, -⟩
    · exact hd
    · omega
  have howed := h.owed htotal hD
  split
  · refine ⟨howed.completeMember, ?_⟩
    intro id count hd hopen hgone
    exact .inl (total_eq_of_gone howed hd (h.mem_openScopes hd hopen) hgone)
  · rename_i hzero
    refine ⟨⟨?_, howed⟩, ?_⟩
    · -- the new connective has no members yet
      intro count hd
      rcases declared_concat_iff.1 hd with hd | ⟨-, hcount⟩
      · exact absurd (h.declared_lt _ _ hd).2 (Nat.lt_irrefl _)
      · refine ⟨count, hcount, Nat.pos_of_ne_zero fun h0 => hzero (h0 ▸ hcount), ?_⟩
        dsimp only
        rw [htotal, h.total_new, if_neg (Nat.ne_of_lt h.current_lt)]
        omega
    · intro id count hd hopen hgone
      exact absurd (List.mem_cons_of_mem _ hopen) hgone

theorem settled_close (h : Accounted ctx ms m.state) {scope : OpenScope} {outer : List OpenScope}
    (hopen : m.state.openScopes = scope :: outer) (harity : m.instruction.arity? = none)
    (hmember : ctx.isMember m = false) (hcloses : m.instruction.closes = true) :
    Settled ctx ms m ⟨m.state.tree, completeMember outer⟩ := by
  have hcurrent : m.state.current = scope.id := by
    unfold DecoderState.current
    rw [hopen]
  have hbalanced : Balanced (ctx.total (ms ++ [m]) m.state.tree) (Declared (ms ++ [m])) 0
      (scope :: outer) := by
    rw [← hopen]
    refine h.balanced.congr ?_ fun a _ count => declared_of_concat harity
    intro a _
    rw [total_of_children_eq fun _ => rfl, hmember, if_neg (fun h => nomatch h.2), Nat.add_zero]
  obtain ⟨hscope, howed⟩ := hbalanced
  refine ⟨howed.completeMember, ?_⟩
  intro id count hd hid hgone
  have hmem := h.mem_openScopes hd hid
  rw [hopen] at hmem
  rcases List.mem_cons.1 hmem with rfl | hmem
  · obtain ⟨n, -, hpos, hsum⟩ := hscope count (declared_concat_iff.2 (.inl hd))
    exact .inr ⟨hcloses, hcurrent, by dsimp only; omega⟩
  · exact .inl (total_eq_of_gone howed hd hmem hgone)

theorem settled (h : Accounted ctx ms m.state) (ht : ctx.Takes m s' c') : Settled ctx ms m s' := by
  cases ht.change h.current_lt with
  | token harity _ _ hchildren => exact h.settled_token harity hchildren
  | scope kind hvalue => exact h.settled_scope (isMember_eq_false hvalue) kind
  | close hopen harity hvalue hcloses =>
    exact h.settled_close hopen harity (isMember_eq_false hvalue) hcloses

theorem step (h : Accounted ctx ms m.state) (ht : ctx.Takes m s' c') :
    Accounted ctx (ms ++ [m]) s' := by
  have hcurrent := h.current_lt
  have hsettled := h.settled ht
  have hsize : m.state.tree.size ≤ s'.tree.size := ht.size_le
  refine
    { grown := grown_step ht.step h.grown, written := ?_, fresh := ?_, declared_lt := ?_,
      balanced := hsettled.balanced, closed_le := ?_ }
  · intro id
    rw [ht.valueTokens_eq hcurrent, h.written, values_add_asides_concat]
  · intro id hid
    have hne : id ≠ m.state.current := by omega
    rw [values_of_ne hne]
    exact h.fresh id (by omega)
  · intro id count hd
    rcases declared_concat_iff.1 hd with hd | ⟨rfl, harity⟩
    · obtain ⟨hpos, hlt⟩ := h.declared_lt id count hd
      exact ⟨hpos, by omega⟩
    · obtain ⟨-, kind, rfl⟩ := ht.opens hcurrent harity
      rw [TokenTree.size_openScope]
      exact ⟨h.grown.size_pos, Nat.lt_succ_self _⟩
  · intro id count hd hgone
    rcases declared_concat_iff.1 hd with hd | ⟨rfl, harity⟩
    · by_cases hopen : id ∈ m.state.path
      · rcases hsettled.gone id count hd hopen hgone with heq | ⟨-, -, hlt⟩
        · exact Nat.le_of_eq heq
        · exact Nat.le_of_lt hlt
      · have hne : id ≠ m.state.current := fun heq => hopen (heq ▸ m.state.current_mem_path)
        rw [ht.total_eq hcurrent hne]
        exact h.closed_le id count hd hopen
    · -- opened in this very step
      rw [ht.total_eq hcurrent (Nat.ne_of_gt hcurrent), h.total_new]
      exact Nat.zero_le _

theorem of_trace {body : List UInt8} (h : ctx.Trace .initial (.ofBytes body) ms s c) :
    Accounted ctx ms s :=
  Trace.induction (P := Accounted ctx) h (initial ctx) fun _ _ _ _ ht hb => hb.step ht

/-- An open connective awaits what it has not got yet. -/
theorem awaits (h : Accounted ctx ms s) {id count : Nat} (hd : Declared ms id count)
    (hopen : id ∈ s.path) :
    ∃ n, ⟨id, some n⟩ ∈ s.openScopes ∧ 0 < n ∧ ctx.members ms s id + n = count := by
  obtain ⟨⟨id, awaiting⟩, ha, rfl⟩ := List.mem_map.1 (h.mem_openScopes hd hopen)
  obtain ⟨tree, openScopes⟩ := s
  cases openScopes with
  | nil => cases ha
  | cons scope outer =>
    obtain ⟨hscope, houter⟩ := h.balanced
    rcases List.mem_cons.1 ha with rfl | houtside
    · obtain ⟨n, hn, hpos, hsum⟩ := hscope count hd
      have hn : awaiting = some n := hn
      subst hn
      have hcurrent : id = DecoderState.current ⟨tree, ⟨id, some n⟩ :: outer⟩ := rfl
      refine ⟨n, ha, hpos, ?_⟩
      rw [members_eq_total h.grown (.inr hcurrent)]
      exact hsum
    · obtain ⟨n, hn, hpos, hsum⟩ := houter.of_mem houtside hd
      have hn : awaiting = some n := hn
      subst hn
      have hlt : id < scope.id := h.grown.spine.lt_head h.grown.toNamed id
        (List.mem_append_left _ (List.mem_map_of_mem houtside))
      have hmembers : ctx.members ms ⟨tree, scope :: outer⟩ id + 1 = ctx.total ms tree id :=
        members_add_one_of_inner h.grown hopen (Nat.ne_of_lt hlt)
      refine ⟨n, ha, hpos, ?_⟩
      dsimp only at hsum ⊢
      omega

theorem members_le (h : Accounted ctx ms s) {id count : Nat} (hd : Declared ms id count) :
    ctx.members ms s id ≤ count := by
  by_cases hopen : id ∈ s.path
  · obtain ⟨n, -, -, hsum⟩ := h.awaits hd hopen
    omega
  · rw [members_eq_total h.grown (.inl hopen)]
    exact h.closed_le id count hd hopen

end Accounted

end DecodeContext

end Dxb
