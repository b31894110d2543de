import Mathlib.Data.List.Basic
import Dxb.Program.Token

/-!
# The shape of a token tree

The array of scopes is a tree (`TokenTree.IsTree`): every scope but the root is named by exactly one
token, in a scope before it, and a depth-first walk meets the scopes in the order in which they
stand in the array.  The lemmas say what appending a token and opening a scope change.
-/

namespace Dxb

/-- The scope that a token names. -/
def Token.scope? : Token → Option Nat
  | scope id => some id
  | _ => none

theorem Token.scope?_eq_some_iff {token : Token} {id : Nat} :
    token.scope? = some id ↔ token = .scope id := by
  cases token <;> simp [Token.scope?]

namespace TokenTree

def tokens (t : TokenTree) (id : Nat) : Array Token := (t.scopes[id]?.map (·.tokens)).getD #[]

def kind? (t : TokenTree) (id : Nat) : Option ScopeKind := t.scopes[id]?.map (·.kind)

/-- The token at a place in a scope. -/
def tokenAt (t : TokenTree) (id place : Nat) : Option Token := (t.tokens id)[place]?

/-- The scopes that a scope names, in order. -/
def children (t : TokenTree) (id : Nat) : List Nat := (t.tokens id).toList.filterMap Token.scope?

/-- The scopes that a depth-first walk from a scope meets, in order. -/
def walk (t : TokenTree) (id : Nat) : List Nat :=
  if id < t.size then
    id :: (t.children id).flatMap fun child => if id < child then t.walk child else []
  else []
termination_by t.size - id

/-- How many scopes there are around a scope. -/
inductive AtDepth (t : TokenTree) : Nat → Nat → Prop
  | root : AtDepth t root 0
  | child {outer inner depth : Nat} (h : inner ∈ t.children outer) (ho : AtDepth t outer depth) :
      AtDepth t inner (depth + 1)

/-- Tokens name the scopes as in a tree. -/
structure Named (t : TokenTree) : Prop where
  /-- The root is the first scope, and the only one of its kind. -/
  root_iff : ∀ id, t.kind? id = some .root ↔ id = root
  /-- Every other scope is named in a scope before it. -/
  named : ∀ id, 0 < id → id < t.size → ∃ outer place, outer < id ∧
    t.tokenAt outer place = some (.scope id)
  /-- No scope is named twice. -/
  once : ∀ id p i q j, t.tokenAt p i = some (.scope id) → t.tokenAt q j = some (.scope id) →
    p = q ∧ i = j
  /-- Whatever is named is a scope of the tree behind the one that names it. -/
  inside : ∀ id p i, t.tokenAt p i = some (.scope id) → p < id ∧ id < t.size

/-- The scopes are a tree, and stand in the order of a depth-first walk. -/
structure IsTree (t : TokenTree) : Prop extends Named t where
  walk_root : t.walk root = List.range t.size

variable {t : TokenTree}

theorem mem_children_iff {outer inner : Nat} :
    inner ∈ t.children outer ↔ ∃ place, t.tokenAt outer place = some (.scope inner) := by
  unfold children tokenAt
  rw [List.mem_filterMap]
  constructor
  · rintro ⟨token, hm, hs⟩
    obtain ⟨place, hplace⟩ := List.mem_iff_getElem?.1 hm
    rw [Token.scope?_eq_some_iff.1 hs] at hplace
    exact ⟨place, by simpa using hplace⟩
  · rintro ⟨place, hplace⟩
    refine ⟨.scope inner, ?_, rfl⟩
    exact Array.mem_toList_iff.2 (Array.mem_of_getElem? hplace)

theorem mem_children_of_mem {outer inner : Nat} {scope : Scope}
    (hscope : t.scopes[outer]? = some scope) (hm : .scope inner ∈ scope.tokens.toList) :
    inner ∈ t.children outer := by
  unfold children tokens
  rw [hscope]
  exact List.mem_filterMap.2 ⟨_, hm, rfl⟩

theorem Named.lt_of_mem_children (h : t.Named) {outer inner : Nat} (hm : inner ∈ t.children outer) :
    outer < inner ∧ inner < t.size := by
  obtain ⟨place, hplace⟩ := mem_children_iff.1 hm
  exact h.inside _ _ _ hplace

/-- A scope that is not there names none. -/
theorem children_eq_nil {id : Nat} (h : t.size ≤ id) : t.children id = [] := by
  have hnone : t.scopes[id]? = none := Array.getElem?_eq_none h
  simp [children, tokens, hnone]

/-- A walk goes on into every scope that is named. -/
theorem Named.walk_eq (h : t.Named) {id : Nat} (hid : id < t.size) :
    t.walk id = id :: (t.children id).flatMap t.walk := by
  rw [walk, if_pos hid]
  congr 1
  apply List.flatMap_congr
  intro child hm
  rw [if_pos (h.lt_of_mem_children hm).1]

/-- A scope is named by one scope only. -/
theorem Named.outer_eq (h : t.Named) {p q inner : Nat} (hp : inner ∈ t.children p)
    (hq : inner ∈ t.children q) : p = q := by
  obtain ⟨i, hi⟩ := mem_children_iff.1 hp
  obtain ⟨j, hj⟩ := mem_children_iff.1 hq
  exact (h.once _ _ _ _ _ hi hj).1

/-- A scope names no scope twice. -/
theorem Named.nodup_children (h : t.Named) (id : Nat) : (t.children id).Nodup := by
  unfold children
  rw [List.Nodup, List.pairwise_filterMap, List.pairwise_iff_getElem]
  intro i j hi hj hij a ha b hb hab
  subst hab
  have hat : ∀ k (hk : k < (t.tokens id).toList.length),
      (t.tokens id).toList[k].scope? = some a → t.tokenAt id k = some (.scope a) := by
    intro k hk hs
    rw [Token.scope?_eq_some_iff] at hs
    have hget : (t.tokens id).toList[k]? = some (.scope a) := by
      rw [List.getElem?_eq_getElem hk, hs]
    simpa [tokenAt] using hget
  have hplace := (h.once a id i id j (hat i hi ha) (hat j hj hb)).2
  omega

/-- A scope has one depth. -/
theorem Named.depth_unique (h : t.Named) {id d e : Nat} (hd : t.AtDepth id d)
    (he : t.AtDepth id e) : d = e := by
  induction hd generalizing e with
  | root =>
    generalize hr : root = id at he
    cases he with
    | root => rfl
    | child hm _ =>
      have hlt := (h.lt_of_mem_children hm).1
      have hzero : root = 0 := rfl
      omega
  | @child outer inner d hm _ ih =>
    generalize hi : inner = id at he
    cases he with
    | root =>
      have hlt := (h.lt_of_mem_children hm).1
      have hzero : root = 0 := rfl
      omega
    | child hm' he' =>
      subst hi
      rw [h.outer_eq hm' hm] at he'
      rw [ih he']

/-! ## Appending a token -/

theorem eq_of_getElem? {u : TokenTree} (h : ∀ p : Nat, t.scopes[p]? = u.scopes[p]?) : t = u :=
  congrArg TokenTree.mk (Array.ext_getElem? h)

theorem getElem?_push (t : TokenTree) (id : Nat) (token : Token) (p : Nat) :
    (t.push id token).scopes[p]? =
      if id = p then t.scopes[p]?.map fun s => { s with tokens := s.tokens.push token }
      else t.scopes[p]? :=
  Array.getElem?_modify

theorem size_push (id : Nat) (token : Token) : (t.push id token).size = t.size := by
  simp [push, size]

theorem tokens_push {id : Nat} (h : id < t.size) (token : Token) (p : Nat) :
    (t.push id token).tokens p = if p = id then (t.tokens id).push token else t.tokens p := by
  unfold tokens push
  dsimp only
  by_cases hp : p = id
  · subst hp
    have hs : t.scopes[p]? = some t.scopes[p] := Array.getElem?_eq_getElem h
    simp [Array.getElem?_modify, hs]
  · rw [if_neg hp]
    simp [Array.getElem?_modify, Ne.symm hp]

theorem kind?_push (id : Nat) (token : Token) (p : Nat) :
    (t.push id token).kind? p = t.kind? p := by
  unfold kind? push
  dsimp only
  by_cases hp : id = p
  · simp [Array.getElem?_modify, hp, Function.comp_def]
  · simp [Array.getElem?_modify, hp]

theorem tokenAt_push {id : Nat} (h : id < t.size) (token : Token) (p i : Nat) :
    (t.push id token).tokenAt p i =
      if p = id ∧ i = (t.tokens id).size then some token else t.tokenAt p i := by
  unfold tokenAt
  rw [tokens_push h]
  by_cases hp : p = id
  · rw [if_pos hp, hp, Array.getElem?_push]
    simp only [true_and]
  · rw [if_neg hp, if_neg fun hlast => hp hlast.1]

theorem tokenAt_push_of_ne_scope {id : Nat} (h : id < t.size) {token : Token}
    (ht : ∀ c, token ≠ .scope c) {p i c : Nat} :
    (t.push id token).tokenAt p i = some (.scope c) ↔ t.tokenAt p i = some (.scope c) := by
  rw [tokenAt_push h]
  split
  · rename_i hlast
    have hnone : t.tokenAt p i = none := by
      rw [hlast.1, hlast.2]
      exact Array.getElem?_size
    simp [hnone, ht c]
  · rfl

theorem children_push_of_ne_scope {id : Nat} (h : id < t.size) {token : Token}
    (ht : ∀ c, token ≠ .scope c) (p : Nat) : (t.push id token).children p = t.children p := by
  unfold children
  rw [tokens_push h]
  by_cases hp : p = id
  · have hnone : token.scope? = none := by
      cases hs : token.scope? with
      | none => rfl
      | some c => exact absurd (Token.scope?_eq_some_iff.1 hs) (ht c)
    simp [hp, hnone]
  · rw [if_neg hp]

/-! ## Opening a scope -/

theorem size_openScope (parent : Nat) (kind : ScopeKind) :
    (t.openScope parent kind).size = t.size + 1 := by
  simp [openScope, push, size]

theorem kind?_openScope (parent : Nat) (kind : ScopeKind) (p : Nat) :
    (t.openScope parent kind).kind? p = if p = t.size then some kind else t.kind? p := by
  have hp := kind?_push (t := t) parent (.scope t.size) p
  unfold kind? at hp ⊢
  rw [← hp]
  unfold openScope
  dsimp only
  rw [Array.getElem?_push]
  have hsize : (t.push parent (.scope t.size)).scopes.size = t.size := size_push _ _
  rw [hsize]
  split <;> rfl

theorem tokens_openScope {parent : Nat} (h : parent < t.size) (kind : ScopeKind) (p : Nat) :
    (t.openScope parent kind).tokens p =
      if p = parent then (t.tokens parent).push (.scope t.size) else t.tokens p := by
  rw [← tokens_push h]
  unfold tokens openScope
  dsimp only
  rw [Array.getElem?_push]
  have hsize : (t.push parent (.scope t.size)).scopes.size = t.size := size_push _ _
  rw [hsize]
  split
  · rename_i hp
    have hnone : (t.push parent (.scope t.size)).scopes[p]? = none :=
      Array.getElem?_eq_none (by omega)
    rw [hnone]
    rfl
  · rfl

theorem tokenAt_openScope {parent : Nat} (h : parent < t.size) (kind : ScopeKind) {p i c : Nat} :
    (t.openScope parent kind).tokenAt p i = some (.scope c) ↔
      t.tokenAt p i = some (.scope c) ∨
        (p = parent ∧ i = (t.tokens parent).size ∧ c = t.size) := by
  unfold tokenAt
  rw [tokens_openScope h]
  by_cases hp : p = parent
  · rw [if_pos hp, hp, Array.getElem?_push]
    split
    · rename_i hi
      rw [hi]
      simp [eq_comm]
    · rename_i hi
      simp [hi]
  · rw [if_neg hp]
    simp [hp]

theorem children_openScope {parent : Nat} (h : parent < t.size) (kind : ScopeKind) (p : Nat) :
    (t.openScope parent kind).children p =
      if p = parent then t.children parent ++ [t.size] else t.children p := by
  unfold children
  rw [tokens_openScope h]
  by_cases hp : p = parent
  · simp [hp, Token.scope?]
  · rw [if_neg hp, if_neg hp]

end TokenTree

end Dxb
