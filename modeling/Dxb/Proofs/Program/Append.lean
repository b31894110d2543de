import Dxb.Proofs.Program.Graft

/-!
# One program behind another

A program that leaves no scope open leaves nothing behind for the next one.  Decoding `q` behind it
goes through the states of decoding `q` alone, with the tree grafted onto what is there
(`DecoderState.onto`), and with offsets larger by the length of what was read (`lockstep_onto`,
`run_onto`).  So the tree and the error of the whole are those of both parts (`decode_append`):

    (ctx.decode (p ++ q)).tree = (ctx.decode p).tree.graft (ctx.decode q).tree
    (ctx.decode (p ++ q)).error = (ctx.decode q).error.map (·.moved p.length)
-/

namespace Dxb

/-! ## States -/

/-- An open scope as it is behind a tree. -/
def OpenScope.onto (t : TokenTree) (scope : OpenScope) : OpenScope :=
  { scope with id := t.place scope.id }

namespace DecoderState

variable {t : TokenTree} {s : DecoderState}

/-- The same state behind a tree that is complete. -/
def onto (t : TokenTree) (s : DecoderState) : DecoderState :=
  ⟨t.graft s.tree, s.openScopes.map (OpenScope.onto t)⟩

theorem completeMember_onto (t : TokenTree) (scopes : List OpenScope) :
    completeMember (scopes.map (OpenScope.onto t)) =
      (completeMember scopes).map (OpenScope.onto t) := by
  induction scopes with
  | nil => rfl
  | cons scope outer ih =>
    obtain ⟨id, awaiting⟩ := scope
    cases awaiting with
    | none => rfl
    | some n =>
      by_cases hn : 1 < n
      · simp only [List.map_cons, OpenScope.onto, completeMember, if_pos hn]
      · simp only [List.map_cons, OpenScope.onto, completeMember, if_neg hn, ih]

theorem current_onto (t : TokenTree) (s : DecoderState) :
    (s.onto t).current = t.place s.current := by
  obtain ⟨tree, scopes⟩ := s
  cases scopes <;> rfl

theorem depth_onto (t : TokenTree) (s : DecoderState) : (s.onto t).depth = s.depth :=
  List.length_map _

/-- An effect is the same behind a tree, since no token of its own names a scope. -/
theorem apply_onto (ht : 0 < t.size) (hs : s.current < s.tree.size) {nests : Bool}
    {effect : Effect} (he : effect.Proper nests) :
    (s.onto t).apply effect = (s.apply effect).onto t := by
  cases effect with
  | nothing => rfl
  | append token counts =>
    have htoken : token.moved t.further = token := by
      cases token with
      | scope id => exact absurd rfl (he id)
      | _ => rfl
    have hpush := TokenTree.push_graft ht hs token
    rw [htoken] at hpush
    unfold apply
    rw [current_onto]
    cases counts with
    | true => simp only [if_true, onto, hpush, completeMember_onto]
    | false =>
      simp only [onto, hpush]
      rfl
  | opens kind members =>
    have hopen := TokenTree.openScope_graft ht hs kind
    have hsize : (t.graft s.tree).size = t.place s.tree.size := by
      rw [TokenTree.size_graft ht (by omega), TokenTree.place_of_pos t (by omega)]
    unfold apply
    rw [current_onto]
    dsimp only
    by_cases hnone : members = some 0
    · rw [if_pos hnone, if_pos hnone]
      simp only [onto, hopen, completeMember_onto]
    · rw [if_neg hnone, if_neg hnone]
      simp only [onto, hopen, hsize, List.map_cons, OpenScope.onto]
  | closes =>
    obtain ⟨tree, scopes⟩ := s
    cases scopes with
    | nil => rfl
    | cons scope outer => simp only [apply, onto, List.map_cons, completeMember_onto]
  | panics => rfl

/-- Behind a tree, the beginning is that tree with nothing open. -/
theorem onto_initial (ht : 0 < t.size) : DecoderState.initial.onto t = ⟨t, []⟩ := by
  unfold onto initial
  rw [TokenTree.graft_empty ht]
  rfl

end DecoderState

namespace DecodeContext

variable {ctx : DecodeContext} {t : TokenTree} {s : DecoderState}

/-- Behind a tree, every instruction does what it does at the beginning. -/
theorem lockstep_onto (ctx : DecodeContext) (ht : 0 < t.size) :
    Lockstep ctx ctx fun s _ behind => behind = s.onto t ∧ s.tree.Grown ctx.levels s.path := by
  refine ⟨?_, ?_, ?_, ?_⟩
  · rintro s c _ ⟨rfl, -⟩
    rw [DecoderState.depth_onto]
  · rintro s c _ ⟨rfl, -⟩
    exact List.isEmpty_map
  · rintro s c _ i ⟨rfl, -⟩ _
    rw [DecoderState.depth_onto]
  · rintro s c _ i s' c' ⟨rfl, hs⟩ htakes
    refine ⟨?_, grown_step htakes.step hs⟩
    have happly : (s.onto t).apply (ctx.effect s.depth i) =
        (s.apply (ctx.effect s.depth i)).onto t :=
      DecoderState.apply_onto ht (hs.open_lt _ s.current_mem_path) (i.proper_effect _ _)
    rw [DecoderState.depth_onto, happly, htakes.state_eq]

/-- A run behind a tree does what it does at the beginning, and fails where it fails there. -/
theorem run_onto (ht : 0 < t.size) (hs : s.tree.Grown ctx.levels s.path) (k : Nat) (c : Cursor) :
    ctx.run (s.onto t) (c.moved k) =
      ((ctx.run s c).1.onto t, (ctx.run s c).2.map (Halt.moved k)) := by
  obtain ⟨-, ⟨hstate, -⟩, herror⟩ := (lockstep_onto ctx ht).run (c := c) ⟨rfl, hs⟩ k
  exact Prod.ext hstate herror

/-- A program that is read completely is read in front of any other. -/
theorem run_append {p : List UInt8} (hp : ctx.run .initial (.ofBytes p) = (s, none))
    (q : List UInt8) : ctx.run .initial (.ofBytes (p ++ q)) = ctx.run s ⟨q, p.length⟩ := by
  obtain ⟨⟨rest, o⟩, hsteps, hend⟩ := exists_steps_run ctx .initial (.ofBytes p)
  rw [hp] at hsteps hend
  rcases hend with ⟨hend, -⟩ | ⟨-, e, he, -⟩
  · have hrest : rest = [] := by simpa [Cursor.atEnd] using hend
    subst hrest
    obtain ⟨taken, htaken, ho⟩ := hsteps.exists_taken
    have hlength : p.length = o := by
      rw [List.append_nil] at htaken
      simpa [Cursor.ofBytes, ← htaken] using ho.symm
    rw [hlength]
    exact (hsteps.before (List.append_nil p).symm q).run_eq
  · cases he

/-- Behind a program that is read completely and leaves no scope open, any program gives the scopes
that it gives alone, and fails with the error that it fails with alone.  If the first one leaves no
fragment to be written and the second one does not begin with a separator, then the text is that of
the first and then that of the second. -/
theorem decode_append (ctx : DecodeContext) {p : List UInt8} {s : DecoderState}
    (hp : ctx.run .initial (.ofBytes p) = (s, none)) (hclosed : s.openScopes = [])
    (q : List UInt8) :
    let first := (ctx.decode p).tree
    let second := ctx.decode q
    let whole := ctx.decode (p ++ q)
    whole.tree = first.graft second.tree ∧
      whole.error = second.error.map (Halt.moved p.length) ∧
      ((∀ token, (first.tokens TokenTree.root).back? = some token → token.defer? = none) →
        (∀ token, (second.tree.tokens TokenTree.root)[0]? = some token →
          token.isSeparator = false) →
        ∀ formatted, whole.tree.render formatted =
          first.render formatted ++ second.tree.render formatted) := by
  intro first second whole
  obtain ⟨_, hfirst⟩ := grown_decode ctx p
  obtain ⟨_, hsecond⟩ := grown_decode ctx q
  obtain ⟨_, hwhole⟩ := grown_decode ctx (p ++ q)
  have hstate : s = DecoderState.initial.onto first := by
    rw [DecoderState.onto_initial hfirst.size_pos, ← hclosed, decode_of_run hp]
  have hrun : ctx.run .initial (.ofBytes (p ++ q)) =
      ((ctx.run .initial (.ofBytes q)).1.onto first,
        (ctx.run .initial (.ofBytes q)).2.map (Halt.moved p.length)) := by
    have hcursor : (⟨q, p.length⟩ : Cursor) = (Cursor.ofBytes q).moved p.length := by
      simp [Cursor.moved, Cursor.ofBytes]
    rw [run_append hp q, hcursor, hstate]
    exact run_onto hfirst.size_pos (TokenTree.Grown.empty ctx.levels) p.length _
  have htree : whole.tree = first.graft second.tree := congrArg Decoded.tree (decode_of_run hrun)
  have herror : whole.error = second.error.map (Halt.moved p.length) :=
    congrArg Decoded.error (decode_of_run hrun)
  refine ⟨htree, herror, fun hlast hhead formatted => ?_⟩
  have hnamed : (first.graft second.tree).Named := htree ▸ hwhole.toNamed
  rw [htree]
  exact TokenTree.render_graft hnamed hfirst.toNamed hsecond.toNamed hlast hhead formatted

/-- Behind a pair of brackets, another pair and then a closing bracket too many. -/
theorem decode_append_of_extra_close :
    let whole := (({} : Options).context 64).decode ([0x02, 0x03] ++ [0x02, 0x03, 0x03])
    whole.tree.tokens TokenTree.root = #[.scope 1, .scope 2] ∧
      whole.error = some (.fault (.noParentScope 4)) ∧ ∀ formatted,
        whole.tree.render formatted = "()()" := by
  let ctx := ({} : Options).context 64
  let tree : TokenTree := ⟨#[⟨.root, #[.scope 1]⟩, ⟨.bracket .subscope, #[]⟩]⟩
  have hopen : ∀ rest, ctx.step .initial ⟨0x02 :: rest, 0⟩ =
      (⟨tree, [⟨1, none⟩]⟩, .ok ⟨rest, 1⟩) := fun _ => rfl
  have hclose : ∀ rest, ctx.step ⟨tree, [⟨1, none⟩]⟩ ⟨0x03 :: rest, 1⟩ =
      (⟨tree, []⟩, .ok ⟨rest, 2⟩) := fun _ => rfl
  have hextra : ctx.step ⟨tree, []⟩ ⟨[0x03], 2⟩ =
      (⟨tree, []⟩, .error (.fault (.noParentScope 2))) := rfl
  have hp : ctx.run .initial (.ofBytes [0x02, 0x03]) = (⟨tree, []⟩, none) := by
    rw [Cursor.ofBytes, run_of_step_ok rfl (hopen _), run_of_step_ok rfl (hclose _),
      run_of_atEnd rfl]
  have hq : ctx.run .initial (.ofBytes [0x02, 0x03, 0x03]) =
      (⟨tree, []⟩, some (.fault (.noParentScope 2))) := by
    rw [Cursor.ofBytes, run_of_step_ok rfl (hopen _), run_of_step_ok rfl (hclose _),
      run_of_step_error rfl hextra]
  obtain ⟨htree, herror, hrender⟩ := decode_append ctx hp rfl [0x02, 0x03, 0x03]
  rw [decode_of_run hp, decode_of_run hq] at htree hrender
  rw [decode_of_run hq] at herror
  have htext : ∀ formatted, tree.render formatted = "()" := by
    intro formatted
    have hinner : tree.scopeText formatted 1 = "()" := by
      rw [TokenTree.scopeText]
      simp [tree, Scope.inner, writeTokens, ScopeKind.enclose, ScopeKind.sign?,
        ScopeKind.brackets?, Bracket.opener, Bracket.closer]
    rw [TokenTree.render, TokenTree.scopeText, TokenTree.root]
    simp [tree, Scope.inner, writeTokens, ScopeText.write, ScopeKind.enclose, ScopeKind.sign?,
      ScopeKind.brackets?, hinner]
  refine ⟨?_, herror, fun formatted => ?_⟩
  · show (ctx.decode _).tree.tokens _ = _
    rw [htree]
    decide +kernel
  · rw [hrender _ _ formatted]
    · rw [htext]
      rfl
    · decide +kernel
    · decide +kernel

end DecodeContext

end Dxb
