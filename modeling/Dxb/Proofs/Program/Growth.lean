import Dxb.Proofs.Program.Tree

/-!
# Trees under construction

`Grown t levels path` is what a tree under construction keeps, where `path` is the open scopes with
the root, innermost first.  It is kept by appending a token (`Grown.push`), by opening a scope in
the innermost one (`Grown.openScope`) and by closing some scopes (`Grown.close`), and it makes the
tree one (`Grown.isTree`).

The walk is counted by intervals: what lies within a scope has the numbers from the scope up to its
`stop`, and the scopes that a scope names fill its interval without a gap (`Tiles`).  The open
scopes are those whose interval still grows.
-/

namespace Dxb.TokenTree

/-- The intervals of the scopes `ids` fill the numbers from `first` up to `last`. -/
def Tiles (stop : Nat → Nat) : (first : Nat) → (ids : List Nat) → (last : Nat) → Prop
  | first, [], last => first = last
  | first, id :: ids, last => id = first ∧ Tiles stop (stop id) ids last

/-- Each scope is named by the next one, and the last is the root. -/
inductive Spine (t : TokenTree) : List Nat → Prop
  | root : Spine t [root]
  | cons {inner outer : Nat} {path : List Nat} (h : inner ∈ t.children outer)
      (hs : Spine t (outer :: path)) : Spine t (inner :: outer :: path)

structure Grown (t : TokenTree) (levels : Nat) (path : List Nat) : Prop extends Named t where
  /-- Every scope is within the levels that there are. -/
  level : ∀ id, id < t.size → ∃ depth, t.AtDepth id depth ∧ depth ≤ levels
  spine : t.Spine path
  open_lt : ∀ id ∈ path, id < t.size
  /-- The intervals of the open scopes reach to the end. -/
  stops : ∃ stop : Nat → Nat, (∀ id ∈ path, stop id = t.size) ∧
    ∀ id, id < t.size → Tiles stop (id + 1) (t.children id) (stop id)

variable {t : TokenTree} {levels : Nat} {path : List Nat}

/-! ## Intervals -/

theorem Tiles.congr {stop stop' : Nat → Nat} {ids : List Nat} {first last : Nat}
    (h : Tiles stop first ids last) (hs : ∀ id ∈ ids, stop' id = stop id) :
    Tiles stop' first ids last := by
  induction ids generalizing first with
  | nil => exact h
  | cons id ids ih =>
    refine ⟨h.1, ?_⟩
    rw [hs id List.mem_cons_self]
    exact ih h.2 fun x hx => hs x (List.mem_cons_of_mem _ hx)

theorem Tiles.append {stop : Nat → Nat} {ids : List Nat} {first last : Nat}
    (h : Tiles stop first ids last) : Tiles stop first (ids ++ [last]) (stop last) := by
  induction ids generalizing first with
  | nil => exact ⟨h.symm, rfl⟩
  | cons id ids ih => exact ⟨h.1, ih h.2⟩

/-- When the interval of an open scope grows, the scope around it grows with it: the open one is
the last that it names. -/
theorem Tiles.grow {stop : Nat → Nat} {ids : List Nat} {first n : Nat}
    (h : Tiles stop first ids n) (hn : ∀ id ∈ ids, id < n) (hpath : ∀ id ∈ path, stop id = n)
    (hopen : ∃ id ∈ ids, id ∈ path) :
    Tiles (fun id => if id ∈ path then n + 1 else stop id) first ids (n + 1) := by
  induction ids generalizing first with
  | nil =>
    obtain ⟨id, hid, -⟩ := hopen
    cases hid
  | cons id ids ih =>
    refine ⟨h.1, ?_⟩
    cases ids with
    | nil =>
      obtain ⟨x, hx, hxp⟩ := hopen
      rw [List.mem_singleton.1 hx] at hxp
      exact if_pos hxp
    | cons next ids =>
      have hnext : next < n := hn next (List.mem_cons_of_mem _ List.mem_cons_self)
      have hstop : stop id = next := h.2.1.symm
      -- `id` ends before the end, so it is closed
      have hid : id ∉ path := by
        intro hp
        have := hpath id hp
        omega
      show Tiles _ (if id ∈ path then n + 1 else stop id) _ _
      rw [if_neg hid]
      refine ih h.2 (fun x hx => hn x (List.mem_cons_of_mem _ hx)) ?_
      obtain ⟨x, hx, hxp⟩ := hopen
      rcases List.mem_cons.1 hx with rfl | hx
      · exact absurd hxp hid
      · exact ⟨x, hx, hxp⟩

/-- A walk that goes through each interval from its first number to its last does so through all of
them together. -/
theorem Tiles.flatMap_eq {stop : Nat → Nat} {ids : List Nat} {first last : Nat}
    (h : Tiles stop first ids last) {f : Nat → List Nat}
    (hf : ∀ id ∈ ids, id < stop id ∧ f id = List.range' id (stop id - id)) :
    first ≤ last ∧ ids.flatMap f = List.range' first (last - first) := by
  induction ids generalizing first with
  | nil =>
    have hfl : first = last := h
    rw [hfl]
    simp
  | cons id ids ih =>
    obtain ⟨rfl, hrest⟩ := h
    obtain ⟨hlt, hid⟩ := hf id List.mem_cons_self
    obtain ⟨hle, hmap⟩ := ih hrest fun x hx => hf x (List.mem_cons_of_mem _ hx)
    refine ⟨by omega, ?_⟩
    rw [List.flatMap_cons, hid, hmap]
    have hstart : stop id = id + 1 * (stop id - id) := by omega
    have hlen : last - id = (stop id - id) + (last - stop id) := by omega
    rw [hlen, ← List.range'_append, ← hstart]

/-! ## The open scopes -/

namespace Spine

theorem mono {t' : TokenTree} (h : t.Spine path)
    (hc : ∀ outer inner, inner ∈ t.children outer → inner ∈ t'.children outer) :
    t'.Spine path := by
  induction h with
  | root => exact .root
  | cons hm _ ih => exact .cons (hc _ _ hm) ih

theorem suffix {closed : List Nat} (h : t.Spine (closed ++ path)) (hne : path ≠ []) :
    t.Spine path := by
  induction closed with
  | nil => exact h
  | cons id closed ih =>
    apply ih
    rw [List.cons_append] at h
    cases hrest : closed ++ path with
    | nil =>
      obtain ⟨-, hnil⟩ := List.append_eq_nil_iff.1 hrest
      exact absurd hnil hne
    | cons outer rest =>
      rw [hrest] at h
      cases h with
      | cons _ hs => exact hs

theorem root_mem (h : t.Spine path) : TokenTree.root ∈ path := by
  induction h with
  | root => exact List.mem_cons_self
  | cons _ _ ih => exact List.mem_cons_of_mem _ ih

theorem atDepth {id : Nat} (h : t.Spine (id :: path)) : t.AtDepth id path.length := by
  induction path generalizing id with
  | nil =>
    cases h
    exact .root
  | cons outer path ih =>
    cases h with
    | cons hm hs => exact .child hm (ih hs)

/-- The innermost scope stands behind all others. -/
theorem le_head (hn : t.Named) {id : Nat} (h : t.Spine (id :: path)) :
    ∀ x ∈ id :: path, x ≤ id := by
  induction path generalizing id with
  | nil =>
    intro x hx
    exact Nat.le_of_eq (List.mem_singleton.1 hx)
  | cons outer path ih =>
    cases h with
    | cons hm hs =>
      intro x hx
      have hlt := (hn.lt_of_mem_children hm).1
      rcases List.mem_cons.1 hx with rfl | hx
      · exact Nat.le_refl _
      · have := ih hs x hx
        omega

/-- The scope that names an open one is open. -/
theorem outer_mem (hn : t.Named) (h : t.Spine path) {inner outer : Nat} (hi : inner ∈ path)
    (hm : inner ∈ t.children outer) : outer ∈ path := by
  induction h with
  | root =>
    have hlt := (hn.lt_of_mem_children hm).1
    rw [List.mem_singleton.1 hi] at hlt
    exact absurd hlt (Nat.not_lt_zero _)
  | @cons head next path hhead _ ih =>
    rcases List.mem_cons.1 hi with rfl | hi
    · rw [hn.outer_eq hm hhead]
      exact List.mem_cons_of_mem _ List.mem_cons_self
    · exact List.mem_cons_of_mem _ (ih hi)

/-- The open scopes around the innermost stand before it. -/
theorem lt_head (hn : t.Named) {id : Nat} (h : t.Spine (id :: path)) : ∀ x ∈ path, x < id := by
  cases h with
  | root => exact fun _ hx => nomatch hx
  | cons hm hs =>
    intro x hx
    have hle := hs.le_head hn x hx
    have hlt := (hn.lt_of_mem_children hm).1
    omega

/-- A scope names one open scope at most. -/
theorem inner_unique (hn : t.Named) (h : t.Spine path) {outer a b : Nat} (ha : a ∈ path)
    (hb : b ∈ path) (ham : a ∈ t.children outer) (hbm : b ∈ t.children outer) : a = b := by
  induction h with
  | root => rw [List.mem_singleton.1 ha, List.mem_singleton.1 hb]
  | @cons head next path hhead hs ih =>
    -- of two, the one further out would be the scope that names the head
    have houter : ∀ x ∈ next :: path, x ∈ t.children outer → head ∈ t.children outer → False := by
      intro x hx hxm hhm
      rw [hn.outer_eq hhm hhead] at hxm
      have hle := hs.le_head hn x hx
      have hlt := (hn.lt_of_mem_children hxm).1
      omega
    rcases List.mem_cons.1 ha with rfl | ha'
    · rcases List.mem_cons.1 hb with rfl | hb'
      · rfl
      · exact (houter b hb' hbm ham).elim
    · rcases List.mem_cons.1 hb with rfl | hb'
      · exact (houter a ha' ham hbm).elim
      · exact ih ha' hb'

/-- Every open scope but the innermost names an open one. -/
theorem exists_inner {head id : Nat} (h : t.Spine (head :: path)) (hid : id ∈ head :: path)
    (hne : id ≠ head) : ∃ inner ∈ t.children id, inner ∈ head :: path := by
  induction path generalizing head with
  | nil => exact absurd (List.mem_singleton.1 hid) hne
  | cons next path ih =>
    cases h with
    | cons hm hs =>
      by_cases hnext : id = next
      · subst hnext
        exact ⟨head, hm, List.mem_cons_self⟩
      · have hid' : id ∈ next :: path := by
          rcases List.mem_cons.1 hid with h | h
          · exact absurd h hne
          · exact h
        obtain ⟨inner, hc, hp⟩ := ih hs hid' hnext
        exact ⟨inner, hc, List.mem_cons_of_mem _ hp⟩

end Spine

theorem AtDepth.mono {t' : TokenTree} {id depth : Nat} (h : t.AtDepth id depth)
    (hc : ∀ outer inner, inner ∈ t.children outer → inner ∈ t'.children outer) :
    t'.AtDepth id depth := by
  induction h with
  | root => exact .root
  | child hm _ ih => exact .child (hc _ _ hm) ih

/-! ## What construction keeps -/

namespace Grown

theorem size_pos (h : t.Grown levels path) : 0 < t.size := h.open_lt root h.spine.root_mem

/-- Appending a token that names no scope changes nothing about the shape. -/
theorem push (h : t.Grown levels path) {id : Nat} (hid : id ∈ path) {token : Token}
    (ht : ∀ c, token ≠ .scope c) : (t.push id token).Grown levels path := by
  have hlt := h.open_lt id hid
  have htoken := @tokenAt_push_of_ne_scope t id hlt token ht
  have hchildren := children_push_of_ne_scope hlt ht
  have hmono : ∀ outer inner, inner ∈ t.children outer →
      inner ∈ (t.push id token).children outer := by
    intro outer inner hm
    rwa [hchildren]
  refine
    { root_iff := ?_, named := ?_, once := ?_, inside := ?_, level := ?_,
      spine := h.spine.mono hmono, open_lt := ?_, stops := ?_ }
  · intro p
    rw [kind?_push]
    exact h.root_iff p
  · intro c h0 hc
    rw [size_push] at hc
    obtain ⟨outer, place, hlt, hat⟩ := h.named c h0 hc
    exact ⟨outer, place, hlt, htoken.2 hat⟩
  · intro c p i q j hp hq
    exact h.once c p i q j (htoken.1 hp) (htoken.1 hq)
  · intro c p i hp
    rw [size_push]
    exact h.inside c p i (htoken.1 hp)
  · intro c hc
    rw [size_push] at hc
    obtain ⟨depth, hd, hle⟩ := h.level c hc
    exact ⟨depth, hd.mono hmono, hle⟩
  · intro c hc
    rw [size_push]
    exact h.open_lt c hc
  · obtain ⟨stop, hopen, htiles⟩ := h.stops
    refine ⟨stop, ?_, ?_⟩
    · intro c hc
      rw [size_push]
      exact hopen c hc
    · intro c hc
      rw [size_push] at hc
      rw [hchildren]
      exact htiles c hc

/-- Closing scopes leaves the tree as it is. -/
theorem close {closed : List Nat} (h : t.Grown levels (closed ++ path)) (hne : path ≠ []) :
    t.Grown levels path where
  toNamed := h.toNamed
  level := h.level
  spine := h.spine.suffix hne
  open_lt id hid := h.open_lt id (List.mem_append_right _ hid)
  stops := by
    obtain ⟨stop, hopen, htiles⟩ := h.stops
    exact ⟨stop, fun id hid => hopen id (List.mem_append_right _ hid), htiles⟩

/-- The intervals after a scope was opened in the innermost one: the open scopes reach one further,
and so does the new one. -/
theorem stops_openScope {current : Nat} (h : t.Grown levels (current :: path)) (kind : ScopeKind) :
    ∃ stop : Nat → Nat, (∀ id ∈ t.size :: current :: path, stop id = t.size + 1) ∧
      ∀ id, id < t.size + 1 →
        Tiles stop (id + 1) ((t.openScope current kind).children id) (stop id) := by
  obtain ⟨stop, hopen, htiles⟩ := h.stops
  have hcurrent := h.open_lt current List.mem_cons_self
  let stop' := fun id => if id ∈ t.size :: current :: path then t.size + 1 else stop id
  have hstop' : ∀ id ∈ t.size :: current :: path, stop' id = t.size + 1 := fun id hid => if_pos hid
  -- among the scopes of the tree so far, the new one plays no part
  have hold : ∀ id, id < t.size →
      stop' id = if id ∈ current :: path then t.size + 1 else stop id := by
    intro id hid
    have hne : id ≠ t.size := by omega
    have hmem : id ∈ t.size :: current :: path ↔ id ∈ current :: path := by
      rw [List.mem_cons, or_iff_right hne]
    by_cases hp : id ∈ current :: path
    · rw [if_pos hp]
      exact if_pos (hmem.2 hp)
    · rw [if_neg hp]
      exact if_neg fun hn => hp (hmem.1 hn)
  have hclosed : ∀ id, id < t.size → id ∉ current :: path → stop' id = stop id := by
    intro id hid hp
    rw [hold id hid, if_neg hp]
  refine ⟨stop', hstop', ?_⟩
  intro id hid
  rw [children_openScope hcurrent]
  by_cases hnew : id = t.size
  · -- the new scope is empty
    have hne : id ≠ current := by omega
    have hempty : t.children id = [] := children_eq_nil (Nat.le_of_eq hnew.symm)
    rw [if_neg hne, hempty, hstop' id (by rw [hnew]; exact List.mem_cons_self), hnew]
    exact rfl
  have hlt : id < t.size := by omega
  have htile := htiles id hlt
  by_cases hcur : id = current
  · -- the innermost scope names nothing that is open, and then the new scope
    subst hcur
    rw [if_pos rfl, hstop' id (List.mem_cons_of_mem _ List.mem_cons_self),
      ← hstop' t.size List.mem_cons_self]
    rw [hopen id List.mem_cons_self] at htile
    refine Tiles.append (htile.congr ?_)
    intro inner hm
    refine hclosed inner (h.lt_of_mem_children hm).2 ?_
    intro hp
    have hle := h.spine.le_head h.toNamed inner hp
    have hgt := (h.lt_of_mem_children hm).1
    omega
  rw [if_neg hcur]
  by_cases hp : id ∈ current :: path
  · -- another open scope names an open one, whose interval grows
    rw [hstop' id (List.mem_cons_of_mem _ hp)]
    rw [hopen id hp] at htile
    have hgrow := htile.grow (fun inner hm => (h.lt_of_mem_children hm).2) hopen
      (h.spine.exists_inner hp hcur)
    exact hgrow.congr fun inner hm => hold inner (h.lt_of_mem_children hm).2
  · -- a closed scope names closed ones only
    rw [hclosed id hlt hp]
    refine htile.congr ?_
    intro inner hm
    refine hclosed inner (h.lt_of_mem_children hm).2 ?_
    intro hpi
    exact hp (h.spine.outer_mem h.toNamed hpi hm)

theorem openScope {current : Nat} (h : t.Grown levels (current :: path)) {kind : ScopeKind}
    (hkind : kind ≠ .root) (hlevel : path.length < levels) :
    (t.openScope current kind).Grown levels (t.size :: current :: path) := by
  have hcurrent := h.open_lt current List.mem_cons_self
  have hpos := h.size_pos
  have htoken := @tokenAt_openScope t current hcurrent kind
  have hmono : ∀ outer inner, inner ∈ t.children outer →
      inner ∈ (t.openScope current kind).children outer := by
    intro outer inner hm
    rw [children_openScope hcurrent]
    split
    · rename_i ho
      rw [ho] at hm
      exact List.mem_append_left _ hm
    · exact hm
  have hnew : t.size ∈ (t.openScope current kind).children current := by
    rw [children_openScope hcurrent, if_pos rfl]
    exact List.mem_append_right _ (List.mem_singleton_self _)
  have hspine := h.spine.mono hmono
  refine
    { root_iff := ?_, named := ?_, once := ?_, inside := ?_, level := ?_,
      spine := .cons hnew hspine, open_lt := ?_, stops := ?_ }
  · intro p
    rw [kind?_openScope]
    split
    · rename_i hp
      have hne : p ≠ root := by
        have : root = 0 := rfl
        omega
      simp [hkind, hne]
    · exact h.root_iff p
  · intro c h0 hc
    rw [size_openScope] at hc
    by_cases hlast : c = t.size
    · refine ⟨current, (t.tokens current).size, by omega, ?_⟩
      exact htoken.2 (.inr ⟨rfl, rfl, hlast⟩)
    · obtain ⟨outer, place, hlt, hat⟩ := h.named c h0 (by omega)
      exact ⟨outer, place, hlt, htoken.2 (.inl hat)⟩
  · intro c p i q j hp hq
    rcases htoken.1 hp with hp | ⟨hpc, hpi, hpn⟩
    · rcases htoken.1 hq with hq | ⟨-, -, hqn⟩
      · exact h.once c p i q j hp hq
      · have hlt := (h.inside c p i hp).2
        omega
    · rcases htoken.1 hq with hq | ⟨hqc, hqj, -⟩
      · have hlt := (h.inside c q j hq).2
        omega
      · exact ⟨hpc.trans hqc.symm, hpi.trans hqj.symm⟩
  · intro c p i hp
    rw [size_openScope]
    rcases htoken.1 hp with hp | ⟨rfl, -, rfl⟩
    · obtain ⟨h1, h2⟩ := h.inside c p i hp
      exact ⟨h1, by omega⟩
    · exact ⟨hcurrent, by omega⟩
  · intro c hc
    rw [size_openScope] at hc
    by_cases hlast : c = t.size
    · subst hlast
      exact ⟨path.length + 1, .child hnew hspine.atDepth, hlevel⟩
    · obtain ⟨depth, hd, hle⟩ := h.level c (by omega)
      exact ⟨depth, hd.mono hmono, hle⟩
  · intro c hc
    rw [size_openScope]
    rcases List.mem_cons.1 hc with rfl | hc
    · omega
    · have := h.open_lt c hc
      omega
  · rw [size_openScope]
    exact h.stops_openScope kind

theorem empty (levels : Nat) : TokenTree.empty.Grown levels [root] := by
  have hsize : TokenTree.empty.size = 1 := rfl
  have hnone : ∀ p i, TokenTree.empty.tokenAt p i = none := by
    intro p i
    cases p <;> simp [TokenTree.empty, tokenAt, tokens]
  have hchildren : ∀ p, TokenTree.empty.children p = [] := by
    intro p
    cases p <;> simp [TokenTree.empty, children, tokens]
  have hroot : ∀ id, id < TokenTree.empty.size → id = root := by
    intro id hid
    show id = 0
    omega
  refine
    { root_iff := ?_, named := ?_, once := ?_, inside := ?_, level := ?_, spine := .root,
      open_lt := ?_, stops := ?_ }
  · intro id
    cases id <;> simp [TokenTree.empty, kind?, root]
  · intro id h0 hid
    omega
  · intro id p i q j hp
    rw [hnone] at hp
    cases hp
  · intro id p i hp
    rw [hnone] at hp
    cases hp
  · intro id hid
    rw [hroot id hid]
    exact ⟨0, .root, Nat.zero_le _⟩
  · intro id hid
    rw [List.mem_singleton.1 hid]
    exact Nat.zero_lt_one
  · refine ⟨fun _ => 1, fun _ _ => rfl, ?_⟩
    intro id hid
    rw [hchildren, hroot id hid]
    exact rfl

/-! ## The tree is one -/

/-- A walk from a scope goes through its interval. -/
theorem walk_eq_range' (h : t.Grown levels path) {stop : Nat → Nat}
    (htiles : ∀ id, id < t.size → Tiles stop (id + 1) (t.children id) (stop id)) (id : Nat)
    (hid : id < t.size) : id < stop id ∧ t.walk id = List.range' id (stop id - id) := by
  induction hn : t.size - id using Nat.strongRecOn generalizing id with
  | ind n ih =>
    obtain ⟨hle, hmap⟩ := (htiles id hid).flatMap_eq (f := t.walk) (by
      intro inner hm
      obtain ⟨hlt, hsize⟩ := h.lt_of_mem_children hm
      exact ih (t.size - inner) (by omega) inner hsize rfl)
    refine ⟨by omega, ?_⟩
    have hlen : stop id - id = (stop id - (id + 1)) + 1 := by omega
    rw [h.toNamed.walk_eq hid, hmap, hlen, List.range'_succ]

theorem isTree (h : t.Grown levels path) : t.IsTree where
  toNamed := h.toNamed
  walk_root := by
    obtain ⟨stop, hopen, htiles⟩ := h.stops
    obtain ⟨-, hwalk⟩ := h.walk_eq_range' htiles root h.size_pos
    rw [hwalk, hopen root h.spine.root_mem, List.range_eq_range']
    rfl

end Grown

end Dxb.TokenTree
