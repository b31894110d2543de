import Dxb.Proofs.Program.Unguarded
import Dxb.Proofs.Program.Writing

/-!
# Two trees in one

`t.graft u` continues the root of `t` with the tokens of the root of `u`.  The other scopes of `u`
stand behind those of `t`, so their numbers are moved by as many scopes as `t` has besides its root.
What is written into `u` is written into `t.graft u` in the same way (`push_graft`,
`openScope_graft`), and the text of `t.graft u` is that of `t` and then that of `u` if nothing is
written across the seam:

    (t.graft u).render formatted = t.render formatted ++ u.render formatted     (render_graft)
-/

namespace Dxb

/-- The same token in a tree where scopes have numbers larger by `k`. -/
def Token.moved (k : Nat) : Token → Token
  | scope id => scope (id + k)
  | token => token

def Scope.moved (k : Nat) (s : Scope) : Scope := { s with tokens := s.tokens.map (Token.moved k) }

/-! ## Tokens with larger numbers -/

theorem writeTokens_moved {sign : Option String} {child : Nat → String} (k : Nat) (t : ScopeText)
    (tokens : List Token) : writeTokens sign child t (tokens.map (Token.moved k)) =
      writeTokens sign (fun id => child (id + k)) t tokens := by
  induction tokens generalizing t with
  | nil => rfl
  | cons token rest ih =>
    have hcomma : ((rest.map (Token.moved k)).head?).any Token.isSeparator =
        rest.head?.any Token.isSeparator := by
      cases rest with
      | nil => rfl
      | cons next rest => cases next <;> rfl
    rw [List.map_cons, writeTokens_cons, writeTokens_cons, ih]
    unfold ScopeText.put
    rw [hcomma]
    cases token <;> rfl

theorem Scope.inner_moved (child : Nat → String) (k : Nat) (s : Scope) :
    (s.moved k).inner child = s.inner fun id => child (id + k) := by
  unfold Scope.inner Scope.moved
  rw [Array.toList_map, writeTokens_moved]

namespace TokenTree

/-- How many scopes there are besides the root. -/
def further (t : TokenTree) : Nat := t.size - 1

/-- The root of the first tree is continued with the root of the second, and the other scopes of
the second tree follow those of the first. -/
def graft (t u : TokenTree) : TokenTree :=
  ⟨(t.scopes.modify root fun s =>
      { s with tokens := s.tokens ++ (u.tokens root).map (Token.moved t.further) }) ++
    (u.scopes.extract 1).map (Scope.moved t.further)⟩

/-- Where a scope of the second tree is in both together. -/
def place (t : TokenTree) (id : Nat) : Nat := if id = root then root else id + t.further

variable {t u w : TokenTree} {id : Nat}

theorem place_root (t : TokenTree) : t.place root = root := rfl

theorem place_of_pos (t : TokenTree) (h0 : 0 < id) : t.place id = id + t.further :=
  if_neg (Nat.ne_of_gt h0)

theorem getElem?_graft_root (ht : 0 < t.size) (u : TokenTree) :
    (t.graft u).scopes[root]? = t.scopes[root]?.map fun s =>
      { s with tokens := s.tokens ++ (u.tokens root).map (Token.moved t.further) } := by
  unfold graft
  dsimp only
  rw [Array.getElem?_append_left (by rw [Array.size_modify]; exact ht), Array.getElem?_modify,
    if_pos rfl]

theorem getElem?_graft_of_lt (u : TokenTree) (h0 : 0 < id) (hid : id < t.size) :
    (t.graft u).scopes[id]? = t.scopes[id]? := by
  unfold graft
  dsimp only
  rw [Array.getElem?_append_left (by rw [Array.size_modify]; exact hid), Array.getElem?_modify,
    if_neg (show ¬root = id from Nat.ne_of_lt h0)]

theorem getElem?_graft_add (ht : 0 < t.size) (u : TokenTree) (h0 : 0 < id) :
    (t.graft u).scopes[id + t.further]? = u.scopes[id]?.map (Scope.moved t.further) := by
  have hsize : t.scopes.size = t.further + 1 := (Nat.sub_add_cancel ht).symm
  unfold graft
  dsimp only
  rw [Array.getElem?_append_right (by rw [Array.size_modify]; omega), Array.getElem?_map,
    Array.size_modify, Array.getElem?_extract]
  have hplace : 1 + (id + t.further - t.scopes.size) = id := by omega
  rw [hplace]
  split
  · rfl
  · rw [Array.getElem?_eq_none (by omega)]

theorem size_graft (ht : 0 < t.size) (hu : 0 < u.size) : (t.graft u).size = u.size + t.further := by
  unfold graft further size at *
  simp
  omega

/-- A tree that has the scopes of both is both together. -/
theorem eq_graft (ht : 0 < t.size)
    (hroot : w.scopes[root]? = t.scopes[root]?.map fun s =>
      { s with tokens := s.tokens ++ (u.tokens root).map (Token.moved t.further) })
    (hown : ∀ id, 0 < id → id < t.size → w.scopes[id]? = t.scopes[id]?)
    (hadd : ∀ id, 0 < id → w.scopes[id + t.further]? = u.scopes[id]?.map (Scope.moved t.further)) :
    w = t.graft u := by
  have hsize : t.size = t.further + 1 := (Nat.sub_add_cancel ht).symm
  suffices h : w.scopes = (t.graft u).scopes from congrArg TokenTree.mk h
  apply Array.ext_getElem?
  intro id
  by_cases h0 : id = root
  · rw [h0, hroot, getElem?_graft_root ht]
  have h0 : 0 < id := Nat.pos_of_ne_zero h0
  by_cases hid : id < t.size
  · rw [hown id h0 hid, getElem?_graft_of_lt u h0 hid]
  · have hplace := hadd (id - t.further) (by omega)
    rw [← getElem?_graft_add ht u (by omega), Nat.sub_add_cancel (by omega)] at hplace
    exact hplace

theorem graft_empty (ht : 0 < t.size) : t.graft empty = t := by
  symm
  refine eq_graft ht ?_ (fun _ _ _ => rfl) ?_
  · have hroot : empty.tokens root = #[] := rfl
    simp [hroot]
  · intro id h0
    have hsize : t.size = t.further + 1 := (Nat.sub_add_cancel ht).symm
    have hempty : empty.scopes[id]? = none := Array.getElem?_eq_none h0
    rw [hempty]
    exact Array.getElem?_eq_none (by show t.size ≤ _; omega)

theorem push_graft (ht : 0 < t.size) (hid : id < u.size) (token : Token) :
    (t.graft u).push (t.place id) (token.moved t.further) = t.graft (u.push id token) := by
  have hsize : t.size = t.further + 1 := (Nat.sub_add_cancel ht).symm
  have hroot : root = 0 := rfl
  obtain rfl | h0 : id = root ∨ 0 < id := Nat.eq_zero_or_pos id
  · rw [place_root]
    apply eq_graft ht
    · rw [getElem?_push, getElem?_graft_root ht, tokens_push hid, if_pos rfl, if_pos rfl]
      cases t.scopes[root]? <;> simp
    · intro p hp hlt
      rw [getElem?_push, getElem?_graft_of_lt u hp hlt, if_neg (by omega)]
    · intro p hp
      rw [getElem?_push, getElem?_graft_add ht u hp, getElem?_push, if_neg (by omega),
        if_neg (by omega)]
  · rw [place_of_pos t h0]
    apply eq_graft ht
    · rw [getElem?_push, getElem?_graft_root ht, tokens_push hid, if_neg (by omega),
        if_neg (by omega)]
    · intro p hp hlt
      rw [getElem?_push, getElem?_graft_of_lt u hp hlt, if_neg (by omega)]
    · intro p hp
      rw [getElem?_push, getElem?_graft_add ht u hp, getElem?_push]
      by_cases hsame : id = p
      · rw [if_pos (by omega), if_pos hsame]
        cases u.scopes[p]? <;> simp [Scope.moved]
      · rw [if_neg (by omega), if_neg hsame]

/-- A scope behind all others of the second tree is behind all others. -/
theorem graft_push_scope (ht : 0 < t.size) (hu : 0 < u.size) (s : Scope) :
    (⟨(t.graft u).scopes.push (s.moved t.further)⟩ : TokenTree) = t.graft ⟨u.scopes.push s⟩ := by
  have hsize : t.size = t.further + 1 := (Nat.sub_add_cancel ht).symm
  have hgraft : (t.graft u).scopes.size = u.size + t.further := size_graft ht hu
  have hu' : u.scopes.size = u.size := rfl
  apply eq_graft ht
  · have htokens : (⟨u.scopes.push s⟩ : TokenTree).tokens root = u.tokens root := by
      unfold tokens
      rw [Array.getElem?_push, if_neg]
      exact Nat.ne_of_lt hu
    rw [htokens, Array.getElem?_push, if_neg, getElem?_graft_root ht]
    show 0 ≠ _
    omega
  · intro p h0 hp
    rw [Array.getElem?_push, if_neg (by omega), getElem?_graft_of_lt u h0 hp]
  · intro p h0
    rw [Array.getElem?_push, Array.getElem?_push]
    by_cases hlast : p = u.scopes.size
    · rw [if_pos (by omega), if_pos hlast]
      rfl
    · rw [if_neg (by omega), if_neg hlast, getElem?_graft_add ht u h0]

theorem openScope_graft (ht : 0 < t.size) (hid : id < u.size) (kind : ScopeKind) :
    (t.graft u).openScope (t.place id) kind = t.graft (u.openScope id kind) := by
  have hu : 0 < (u.push id (.scope u.size)).size := by
    rw [size_push]
    omega
  have hpush := push_graft ht hid (.scope u.size)
  unfold openScope
  dsimp only
  rw [size_graft ht (by omega), ← graft_push_scope ht hu, ← hpush]
  simp [Scope.moved, Token.moved]

/-! ## The text -/

/-- The text of a scope of the first tree. -/
theorem scopeText_graft_of_lt (hw : (t.graft u).Named) (ht : t.Named) (formatted : Bool)
    (h0 : 0 < id) (hid : id < t.size) :
    (t.graft u).scopeText formatted id = t.scopeText formatted id := by
  induction hn : t.size - id using Nat.strongRecOn generalizing id with
  | ind n ih =>
    rw [hw.scopeText_eq, ht.scopeText_eq, getElem?_graft_of_lt u h0 hid]
    cases hscope : t.scopes[id]? with
    | none => rfl
    | some scope =>
      dsimp only
      congr 1
      apply Scope.inner_congr
      intro child hm
      obtain ⟨hlt, hsize⟩ := ht.lt_of_mem_children (mem_children_of_mem hscope hm)
      exact ih (t.size - child) (by omega) (by omega) hsize rfl

/-- The text of a scope of the second tree. -/
theorem scopeText_graft_add (hw : (t.graft u).Named) (ht : 0 < t.size) (hu : u.Named)
    (formatted : Bool) (h0 : 0 < id) :
    (t.graft u).scopeText formatted (id + t.further) = u.scopeText formatted id := by
  induction hn : u.size - id using Nat.strongRecOn generalizing id with
  | ind n ih =>
    rw [hw.scopeText_eq, hu.scopeText_eq, getElem?_graft_add ht u h0]
    cases hscope : u.scopes[id]? with
    | none => rfl
    | some scope =>
      show scope.kind.enclose formatted ((scope.moved t.further).inner _) = _
      rw [Scope.inner_moved]
      congr 1
      apply Scope.inner_congr
      intro child hm
      obtain ⟨hlt, hsize⟩ := hu.lt_of_mem_children (mem_children_of_mem hscope hm)
      exact ih (u.size - child) (by omega) (by omega) rfl

theorem Named.exists_root (h : t.Named) :
    ∃ scope, t.scopes[root]? = some scope ∧ scope.kind = .root :=
  Option.map_eq_some_iff.1 ((h.root_iff root).2 rfl)

theorem Named.size_pos (h : t.Named) : 0 < t.size := by
  obtain ⟨scope, hscope, -⟩ := h.exists_root
  exact (Array.getElem?_eq_some_iff.1 hscope).1

/-- The text of a tree is that of the tokens of its root. -/
theorem Named.render_eq (h : t.Named) (formatted : Bool) :
    t.render formatted = (writeTokens none (t.scopeText formatted) ⟨"", none, false⟩
      (t.tokens root).toList).written := by
  obtain ⟨scope, hscope, hkind⟩ := h.exists_root
  unfold render tokens
  rw [h.scopeText_eq, hscope]
  dsimp only
  unfold Scope.inner
  rw [hkind]
  rfl

theorem tokens_graft_root (ht : 0 < t.size) (u : TokenTree) :
    (t.graft u).tokens root = t.tokens root ++ (u.tokens root).map (Token.moved t.further) := by
  have hroot : t.scopes[root]? = some t.scopes[root] := Array.getElem?_eq_getElem ht
  unfold tokens
  rw [getElem?_graft_root ht, hroot]
  rfl

/-- Where the first tree leaves no fragment to be written and the second one does not begin with a
separator, the texts are written one after the other. -/
theorem render_graft (hw : (t.graft u).Named) (ht : t.Named) (hu : u.Named)
    (hlast : ∀ token, (t.tokens root).back? = some token → token.defer? = none)
    (hfirst : ∀ token, (u.tokens root)[0]? = some token → token.isSeparator = false)
    (formatted : Bool) :
    (t.graft u).render formatted = t.render formatted ++ u.render formatted := by
  -- both parts name the same texts as before
  have hown : ∀ x, writeTokens none ((t.graft u).scopeText formatted) x (t.tokens root).toList =
      writeTokens none (t.scopeText formatted) x (t.tokens root).toList := by
    refine writeTokens_congr fun child hm => ?_
    obtain ⟨hlt, hsize⟩ := ht.lt_of_mem_children (List.mem_filterMap.2 ⟨_, hm, rfl⟩)
    exact scopeText_graft_of_lt hw ht formatted hlt hsize
  have hadd : ∀ x, writeTokens none ((t.graft u).scopeText formatted) x
      ((u.tokens root).toList.map (Token.moved t.further)) =
      writeTokens none (u.scopeText formatted) x (u.tokens root).toList := by
    intro x
    rw [writeTokens_moved]
    refine writeTokens_congr (fun child hm => ?_) x
    obtain ⟨hlt, -⟩ := hu.lt_of_mem_children (List.mem_filterMap.2 ⟨_, hm, rfl⟩)
    exact scopeText_graft_add hw ht.size_pos hu formatted hlt
  have hcomma : (((u.tokens root).toList.map (Token.moved t.further)).head?).any
      Token.isSeparator = false := by
    rw [List.head?_map, List.head?_eq_getElem?, Array.getElem?_toList]
    cases hhead : (u.tokens root)[0]? with
    | none => rfl
    | some token =>
      have hno := hfirst token hhead
      cases token <;> exact hno
  -- nothing is pending at the seam
  have hseam : writeTokens none (t.scopeText formatted) ⟨"", none, false⟩ (t.tokens root).toList =
      ⟨t.render formatted ++ "", none, false⟩ := by
    let x := writeTokens none (t.scopeText formatted) ⟨"", none, false⟩ (t.tokens root).toList
    have hwritten : x.written = t.render formatted := (ht.render_eq formatted).symm
    have hpending : x.pending = none := by
      rw [pending_writeTokens, Array.getLast?_toList]
      cases hback : (t.tokens root).back? with
      | none => rfl
      | some token => exact hlast token hback
    have hvalue : x.hasValue = false := hasValue_writeTokens _ _
    show x = _
    rw [String.append_empty, ← hwritten, ← hpending, ← hvalue]
  rw [hw.render_eq, tokens_graft_root ht.size_pos, Array.toList_append, Array.toList_map,
    writeTokens_append _ _ hcomma, hown, hseam, hadd, hu.render_eq]
  exact written_writeTokens (t.render formatted) ⟨"", none, false⟩ _

end TokenTree

end Dxb
