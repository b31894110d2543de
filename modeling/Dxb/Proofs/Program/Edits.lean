import Dxb.Proofs.Program.Append

/-!
# Trees that differ in one scope

`t.withTokens id tokens` is a tree with other tokens in one scope.  Decoding only ever appends to
what is there, and what it appends does not depend on it.  So decoding goes the same way from a
state with other tokens in a scope, and the trees at the end differ in the same way and in nothing
else (`exists_run_withTokens`).
-/

namespace Dxb

namespace TokenTree

/-- The tree with other tokens in one scope. -/
def withTokens (t : TokenTree) (id : Nat) (tokens : Array Token) : TokenTree :=
  ⟨t.scopes.modify id fun s => { s with tokens }⟩

variable {t : TokenTree} {id : Nat}

theorem getElem?_withTokens (t : TokenTree) (id : Nat) (tokens : Array Token) (p : Nat) :
    (t.withTokens id tokens).scopes[p]? =
      if id = p then t.scopes[p]?.map fun s => { s with tokens } else t.scopes[p]? :=
  Array.getElem?_modify

theorem size_withTokens (t : TokenTree) (id : Nat) (tokens : Array Token) :
    (t.withTokens id tokens).size = t.size := by
  simp [withTokens, size]

theorem withTokens_withTokens (t : TokenTree) (id : Nat) (tokens tokens' : Array Token) :
    (t.withTokens id tokens).withTokens id tokens' = t.withTokens id tokens' := by
  apply eq_of_getElem?
  intro p
  rw [getElem?_withTokens, getElem?_withTokens, getElem?_withTokens]
  by_cases hp : id = p
  · rw [if_pos hp, if_pos hp, if_pos hp]
    cases t.scopes[p]? <;> rfl
  · rw [if_neg hp, if_neg hp, if_neg hp]

theorem tokens_withTokens (hid : id < t.size) (tokens : Array Token) :
    (t.withTokens id tokens).tokens id = tokens := by
  have hscope : t.scopes[id]? = some t.scopes[id] := Array.getElem?_eq_getElem hid
  rw [TokenTree.tokens, getElem?_withTokens, if_pos rfl, hscope]
  rfl

theorem push_eq_withTokens (t : TokenTree) (id : Nat) (token : Token) :
    t.push id token = t.withTokens id ((t.tokens id).push token) := by
  apply eq_of_getElem?
  intro p
  rw [getElem?_push, getElem?_withTokens]
  by_cases hp : id = p
  · rw [if_pos hp, if_pos hp, hp, tokens]
    cases t.scopes[p]? <;> rfl
  · rw [if_neg hp, if_neg hp]

/-- A token is appended behind the tokens of a scope, whichever they are. -/
theorem exists_push_withTokens (hid : id < t.size) (p : Nat) (token : Token) :
    ∃ more, (t.push p token).tokens id = t.tokens id ++ more ∧ ∀ tokens,
      (t.withTokens id tokens).push p token = (t.push p token).withTokens id (tokens ++ more) := by
  by_cases hp : p = id
  · subst hp
    refine ⟨#[token], ?_, fun tokens => ?_⟩
    · rw [tokens_push hid, if_pos rfl, Array.push_eq_append]
    · rw [push_eq_withTokens, push_eq_withTokens, tokens_withTokens hid, withTokens_withTokens,
        withTokens_withTokens, Array.push_eq_append]
  · refine ⟨#[], ?_, fun tokens => ?_⟩
    · rw [Array.append_empty, TokenTree.tokens, getElem?_push, if_neg hp]
      rfl
    · rw [Array.append_empty]
      apply eq_of_getElem?
      intro q
      rw [getElem?_push, getElem?_withTokens, getElem?_withTokens, getElem?_push]
      by_cases hq : p = q
      · rw [if_pos hq, if_pos hq, if_neg (by omega), if_neg (by omega)]
      · rw [if_neg hq, if_neg hq]

theorem exists_openScope_withTokens (hid : id < t.size) (p : Nat) (kind : ScopeKind) :
    ∃ more, (t.openScope p kind).tokens id = t.tokens id ++ more ∧ ∀ tokens,
      (t.withTokens id tokens).openScope p kind =
        (t.openScope p kind).withTokens id (tokens ++ more) := by
  obtain ⟨more, htokens, hpush⟩ := exists_push_withTokens hid p (.scope t.size)
  have hsize : ∀ u : TokenTree, (u.push p (.scope t.size)).scopes.size = u.size :=
    fun u => size_push p _
  refine ⟨more, ?_, fun tokens => ?_⟩
  · rw [← htokens]
    unfold openScope TokenTree.tokens
    dsimp only
    rw [Array.getElem?_push, hsize, if_neg (by omega)]
  · apply eq_of_getElem?
    intro q
    rw [getElem?_withTokens]
    unfold openScope
    dsimp only
    rw [size_withTokens, Array.getElem?_push, Array.getElem?_push, hsize, hsize, size_withTokens,
      hpush, getElem?_withTokens]
    by_cases hq : q = t.size
    · rw [if_pos hq, if_pos hq, if_neg (by omega)]
    · rw [if_neg hq, if_neg hq]

end TokenTree

namespace DecoderState

variable {s : DecoderState} {id : Nat}

def withTokens (s : DecoderState) (id : Nat) (tokens : Array Token) : DecoderState :=
  { s with tree := s.tree.withTokens id tokens }

theorem apply_append (s : DecoderState) (token : Token) (counts : Bool) :
    s.apply (.append token counts) =
      (⟨s.tree, if counts then completeMember s.openScopes else s.openScopes⟩ :
        DecoderState).withTokens s.current ((s.tree.tokens s.current).push token) :=
  congrArg (fun tree => (⟨tree, _⟩ : DecoderState)) (s.tree.push_eq_withTokens s.current token)

/-- An effect appends behind the tokens of a scope, whichever they are. -/
theorem exists_apply_withTokens (hid : id < s.tree.size) (effect : Effect) :
    ∃ more, (s.apply effect).tree.tokens id = s.tree.tokens id ++ more ∧ ∀ tokens,
      (s.withTokens id tokens).apply effect = (s.apply effect).withTokens id (tokens ++ more) := by
  have hsame : ∃ more, s.tree.tokens id = s.tree.tokens id ++ more ∧ ∀ tokens,
      s.withTokens id tokens = s.withTokens id (tokens ++ more) :=
    ⟨#[], Array.append_empty.symm, fun tokens => by rw [Array.append_empty]⟩
  have hcurrent : ∀ tokens, (s.withTokens id tokens).current = s.current := fun _ => rfl
  cases effect with
  | nothing => exact hsame
  | append token counts =>
    obtain ⟨more, htokens, hpush⟩ := TokenTree.exists_push_withTokens hid s.current token
    exact ⟨more, htokens, fun tokens =>
      congrArg (fun tree => (⟨tree, _⟩ : DecoderState)) (hpush tokens)⟩
  | opens kind members =>
    obtain ⟨more, htokens, hopen⟩ := TokenTree.exists_openScope_withTokens hid s.current kind
    refine ⟨more, ?_, fun tokens => ?_⟩
    · dsimp only [apply]
      split <;> exact htokens
    · simp only [apply, hcurrent]
      split <;> simp only [withTokens, hopen, TokenTree.size_withTokens]
  | closes =>
    obtain ⟨tree, scopes⟩ := s
    cases scopes with
    | nil => exact hsame
    | cons inner outer =>
      exact ⟨#[], Array.append_empty.symm, fun tokens => by rw [Array.append_empty]; rfl⟩
  | panics => exact hsame

end DecoderState

namespace DecodeContext

variable {s : DecoderState} {id : Nat}

/-- Decoding goes the same way whatever the tokens of a scope are. -/
theorem lockstep_withTokens (ctx : DecodeContext) (id : Nat) (old new : Array Token) :
    Lockstep ctx ctx fun s _ t => id < s.tree.size ∧ ∃ later,
      s.tree.tokens id = old ++ later ∧ t = s.withTokens id (new ++ later) := by
  refine ⟨?_, ?_, ?_, ?_⟩
  · rintro s c _ ⟨-, later, -, rfl⟩
    rfl
  · rintro s c _ ⟨-, later, -, rfl⟩
    rfl
  · rintro s c _ i ⟨-, later, -, rfl⟩ _
    rfl
  · rintro s c _ i s' c' ⟨hid, later, hold, rfl⟩ htakes
    obtain ⟨more, htokens, happly⟩ :=
      DecoderState.exists_apply_withTokens hid (ctx.effect s.depth i)
    have hsize := htakes.size_le
    rw [htakes.state_eq] at hsize ⊢
    refine ⟨Nat.lt_of_lt_of_le hid hsize, later ++ more, ?_, ?_⟩
    · rw [← Array.append_assoc, ← hold]
      exact htokens
    · rw [← Array.append_assoc]
      exact happly (new ++ later)

/-- A run appends tokens to a scope, and the same ones whatever is there; a run from a state with
other tokens in the scope ends in the same way apart from these. -/
theorem exists_run_withTokens (ctx : DecodeContext) (hid : id < s.tree.size) (c : Cursor) :
    id < (ctx.run s c).1.tree.size ∧
      ∃ later, (ctx.run s c).1.tree.tokens id = s.tree.tokens id ++ later ∧
        ∀ new, ctx.run (s.withTokens id new) c =
          ((ctx.run s c).1.withTokens id (new ++ later), (ctx.run s c).2) := by
  have hrun : ∀ new, id < (ctx.run s c).1.tree.size ∧
      ∃ later, (ctx.run s c).1.tree.tokens id = s.tree.tokens id ++ later ∧
        ctx.run (s.withTokens id new) c =
          ((ctx.run s c).1.withTokens id (new ++ later), (ctx.run s c).2) := by
    intro new
    obtain ⟨-, ⟨hsize, later, htokens, hstate⟩, herror⟩ :=
      (lockstep_withTokens ctx id (s.tree.tokens id) new).run_here (s := s) (c := c)
        ⟨hid, #[], Array.append_empty.symm, by rw [Array.append_empty]⟩
    exact ⟨hsize, later, htokens, Prod.ext hstate herror⟩
  obtain ⟨hsize, later, htokens, -⟩ := hrun #[]
  refine ⟨hsize, later, htokens, fun new => ?_⟩
  obtain ⟨-, later', htokens', hrun'⟩ := hrun new
  rw [htokens] at htokens'
  rw [hrun', (Array.append_right_inj _).1 htokens']

end DecodeContext

end Dxb
