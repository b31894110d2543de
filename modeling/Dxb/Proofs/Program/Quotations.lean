import Mathlib.Data.List.Infix
import Dxb.Proofs.Program.Formatting
import Dxb.Proofs.Program.Provenance
import Dxb.Proofs.Program.Sequence
import Dxb.Proofs.Text.Hanging
import Dxb.Proofs.Text.Literals

/-!
# Text literals in a formatted script

Each token is written at one place in the script, with formatting and without: behind the same solid
text (`StandAlike`).  A scope between brackets indents what stands in it, and the scopes around it
do so again, so a text literal gets a margin for each of them in all its lines but the first
(`literal_stands_iff`).  It has more than one line only if line feeds stand for themselves in it.
-/

namespace Dxb

open Lines

/-! ## Literals -/

namespace Quoted

theorem framed_literal (keepNewlines : Bool) (text : String) :
    Framed (literal keepNewlines text).toList where
  first := ⟨'"', escape keepNewlines text.toList ++ ['"'], String.toList_ofList, rfl⟩
  last := ⟨'"' :: escape keepNewlines text.toList, '"', String.toList_ofList, rfl⟩

end Quoted

/-! ## Two texts at once -/

/-- In two texts stands a piece each, behind the same solid text. -/
def StandAlike (text piece text' piece' : List Char) : Prop :=
  ∃ before, Stands text piece before ∧ Stands text' piece' before

namespace StandAlike

variable {text piece text' piece' : List Char}

theorem refl (text text' : List Char) : StandAlike text text text' text' :=
  ⟨[], .refl text, .refl text'⟩

theorem trans {inner inner' : List Char} (h : StandAlike text piece text' piece')
    (hinner : StandAlike piece inner piece' inner') : StandAlike text inner text' inner' := by
  obtain ⟨before, ha, hb⟩ := h
  obtain ⟨behind, hc, hd⟩ := hinner
  exact ⟨before ++ behind, ha.trans hc, hb.trans hd⟩

/-- Whatever stands around two texts, if the fronts have the same solid text. -/
theorem between (h : StandAlike text piece text' piece') {a a' : List Char}
    (ha : solid a' = solid a) (b b' : List Char) :
    StandAlike (a ++ text ++ b) piece (a' ++ text' ++ b') piece' := by
  have houter : StandAlike (a ++ text ++ b) text (a' ++ text' ++ b') text' :=
    ⟨solid a, ⟨a, b, rfl, rfl⟩, a', b', rfl, ha⟩
  exact houter.trans h

end StandAlike

/-! ## Scopes -/

/-- What a token is written as, where scopes are written by `child`. -/
def Token.written (child : Nat → String) (token : Token) : String :=
  (token.scope?.map child).getD token.text

/-- A token is written behind what was there, and behind the sign of a connective. -/
theorem ScopeText.SameSolid.standAlike_write {sign : Option String} {comma : Bool}
    {t u : ScopeText} (h : t.SameSolid u) (token : Token) (text text' : String) :
    StandAlike (t.write sign comma token text).written.toList text.toList
      (u.write sign comma token text').written.toList text'.toList := by
  rw [written_write, written_write, h.hasValue]
  simp only [String.toList_append]
  refine StandAlike.between (.refl _ _) ?_ _ _
  rw [solid_append, solid_append, h.written]

/-- Each token of a scope is written at one place, whatever layout the scopes in it have. -/
theorem standAlike_writeTokens (sign : Option String) {f g : Nat → String} {tokens : List Token}
    {token : Token}
    (hchild : ∀ id, .scope id ∈ tokens → solid (g id).toList = solid (f id).toList)
    {t u : ScopeText} (h : t.SameSolid u) {place : Nat} (htoken : tokens[place]? = some token) :
    StandAlike (writeTokens sign f t tokens).written.toList (token.written f).toList
      (writeTokens sign g u tokens).written.toList (token.written g).toList := by
  induction tokens generalizing t u place with
  | nil => cases htoken
  | cons first rest ih =>
    rw [writeTokens_cons, writeTokens_cons]
    cases place with
    | zero =>
      obtain rfl : first = token := Option.some.inj htoken
      obtain ⟨behind, hbehind⟩ := exists_written sign f (t.put sign f rest.head? first) rest
      obtain ⟨behind', hbehind'⟩ := exists_written sign g (u.put sign g rest.head? first) rest
      rw [hbehind, hbehind', String.toList_append, String.toList_append, ScopeText.put_eq,
        ScopeText.put_eq]
      exact StandAlike.between (a := []) (h.standAlike_write first _ _) rfl _ _
    | succ place =>
      have htext : solid (first.written g).toList = solid (first.written f).toList := by
        unfold Token.written
        cases hs : first.scope? with
        | none => rfl
        | some id => exact hchild id (Token.scope?_eq_some_iff.1 hs ▸ List.mem_cons_self)
      rw [ScopeText.put_eq, ScopeText.put_eq]
      exact ih (fun id hid => hchild id (List.mem_cons_of_mem _ hid)) (h.write rfl htext) htoken

theorem Scope.standAlike_inner {f g : Nat → String} {scope : Scope} {token : Token}
    (hchild : ∀ id, .scope id ∈ scope.tokens.toList → solid (g id).toList = solid (f id).toList)
    {place : Nat} (htoken : scope.tokens[place]? = some token) :
    StandAlike (scope.inner f).toList (token.written f).toList (scope.inner g).toList
      (token.written g).toList := by
  have htoken : scope.tokens.toList[place]? = some token := by
    rwa [Array.getElem?_toList]
  have hsame : ScopeText.SameSolid ⟨"", none, false⟩ ⟨"", none, false⟩ := ⟨rfl, rfl, rfl⟩
  have hwritten := standAlike_writeTokens scope.kind.sign? hchild hsame htoken
  unfold Scope.inner
  dsimp only
  split
  · simp only [String.toList_append]
    exact hwritten.between rfl _ _
  · exact hwritten

/-- Whether a scope of a kind stands between brackets. -/
def ScopeKind.enclosed (kind : ScopeKind) : Bool := kind.brackets?.isSome

/-- Between brackets, a formatted scope has margins; if it is in one line, it needs none. -/
theorem ScopeKind.standAlike_enclose (kind : ScopeKind) {inner inner' : String}
    {piece piece' : List Char} (h : StandAlike inner.toList piece inner'.toList piece')
    (hframed : Framed piece') (hreturn : '\r' ∉ piece') :
    StandAlike (kind.enclose false inner).toList piece (kind.enclose true inner').toList
      (if kind.enclosed then hang piece' else piece') := by
  unfold enclose enclosed
  cases kind.brackets? with
  | none => exact h
  | some brackets =>
    obtain ⟨opener, closer⟩ := brackets
    simp only [Bool.false_and, Bool.true_and, Bool.false_eq_true, if_false, Option.isSome_some,
      if_true]
    split
    · obtain ⟨before, hunformatted, hformatted⟩ := h
      have hindented : StandAlike inner.toList piece (indent (trimEnd inner'.toList))
          (hang piece') := ⟨before, hunformatted, hformatted.indent hframed hreturn⟩
      have hfeed : solid "\n".toList = [] := by decide
      have hopener : solid (opener ++ "\n").toList = solid opener.toList := by
        rw [String.toList_append, solid_append, hfeed, List.append_nil]
      have hbetween := hindented.between hopener closer.toList ("\n".toList ++ closer.toList)
      simpa only [String.toList_append, String.toList_ofList, List.append_assoc] using hbetween
    · rename_i hline
      have hpiece : '\n' ∉ piece' := by
        obtain ⟨before, -, a, b, hinner, -⟩ := h
        rw [String.contains_char_eq, decide_eq_true_eq, hinner] at hline
        exact fun hfeed => hline (List.mem_append_left b (List.mem_append_right a hfeed))
      rw [hang_eq_self hpiece]
      simp only [String.toList_append]
      exact h.between rfl _ _

/-! ## Trees -/

namespace TokenTree

variable {t : TokenTree} {id place : Nat} {token : Token} {piece piece' : List Char}

/-- How many of some scopes stand between brackets. -/
def brackets (t : TokenTree) (ids : List Nat) : Nat :=
  ids.countP fun id => (t.kind? id).any ScopeKind.enclosed

theorem exists_scope_of_tokenAt (h : t.tokenAt id place = some token) :
    ∃ scope, t.scopes[id]? = some scope ∧ scope.tokens[place]? = some token := by
  unfold tokenAt tokens at h
  cases hs : t.scopes[id]? with
  | none =>
    rw [hs] at h
    simp at h
  | some scope =>
    rw [hs] at h
    exact ⟨scope, rfl, h⟩

/-- A piece of a token gets margins if the scope of the token has brackets. -/
theorem Named.standAlike_scopeText (hn : t.Named) (htoken : t.tokenAt id place = some token)
    (h : StandAlike (token.written (t.scopeText false)).toList piece
      (token.written (t.scopeText true)).toList piece')
    (hframed : Framed piece') (hreturn : '\r' ∉ piece') :
    StandAlike (t.scopeText false id).toList piece (t.scopeText true id).toList
      (if (t.kind? id).any ScopeKind.enclosed then hang piece' else piece') := by
  obtain ⟨scope, hscope, hplace⟩ := exists_scope_of_tokenAt htoken
  have hkind : t.kind? id = some scope.kind := by
    rw [kind?, hscope]
    rfl
  have hinner := Scope.standAlike_inner (f := t.scopeText false) (g := t.scopeText true)
    (fun child _ => (SameSolid.refl t).solid_scopeText false true child) hplace
  rw [hn.scopeText_eq, hn.scopeText_eq, hscope, hkind]
  exact scope.kind.standAlike_enclose (hinner.trans h) hframed hreturn

/-- A piece of a scope gets a margin for each scope around that one that stands between brackets. -/
theorem Named.standAlike_render (hn : t.Named) {outer : List Nat} (hspine : t.Spine (id :: outer))
    (h : StandAlike (t.scopeText false id).toList piece (t.scopeText true id).toList piece')
    (hframed : Framed piece') (hreturn : '\r' ∉ piece') :
    StandAlike (t.render false).toList piece (t.render true).toList
      (hang^[t.brackets outer] piece') := by
  induction outer generalizing id piece' with
  | nil =>
    cases hspine
    exact h
  | cons next outer ih =>
    cases hspine with
    | cons hchild hspine =>
      obtain ⟨place, hplace⟩ := mem_children_iff.1 hchild
      have hnext := hn.standAlike_scopeText hplace h hframed hreturn
      unfold brackets at ih ⊢
      rw [List.countP_cons]
      split at hnext
      · rename_i henclosed
        rw [if_pos henclosed]
        exact ih hspine hnext hframed.hang ((mem_hangFrom_iff false (by decide)).not.2 hreturn)
      · rename_i hplain
        rw [if_neg hplain]
        exact ih hspine hnext hframed hreturn

end TokenTree

/-! ## Programs -/

namespace DecodeContext

/-- The scopes that are open at some point name each other in the tree of the whole program. -/
theorem spine_decode {ctx : DecodeContext} {body : List UInt8} {s : DecoderState} {c : Cursor}
    (h : ctx.Steps .initial (.ofBytes body) s c) : (ctx.decode body).tree.Spine s.path := by
  have hgrown := grown_steps h
  have hrun : ctx.run .initial (.ofBytes body) = ctx.run s c := h.run_eq
  obtain ⟨c', hrest, -⟩ := exists_steps_run ctx s c
  rw [decode_of_run hrun]
  refine hgrown.spine.mono fun outer inner hchild => ?_
  obtain ⟨place, hplace⟩ := TokenTree.mem_children_iff.1 hchild
  exact TokenTree.mem_children_iff.2 ⟨place, hrest.tokenAt hgrown hplace⟩

/-- A text becomes one literal.  It stands at one place in the script, and with formatting at the
same place with a margin for each scope between brackets around it, in all its lines but the first.
So formatting leaves it as it is exactly if no scope around it stands between brackets, line feeds
are escaped, or there are none in the text. -/
theorem literal_stands_iff (o : Options) (levels : Nat) (body : List UInt8) {m : Moment}
    {s' : DecoderState} {c' : Cursor} {text : String}
    (hsteps : (o.context levels).Steps .initial (.ofBytes body) m.state m.start)
    (htakes : (o.context levels).Takes m s' c') (htext : m.instruction.quoted? = some text) :
    let tree := ((o.context levels).decode body).tree
    let literal := Quoted.literal o.formattedStrings text
    let around := tree.brackets m.state.path
    tree.tokenAt m.state.current (m.state.tree.tokens m.state.current).size =
        some (.value literal none) ∧
      ∃ before, Stands (tree.render false).toList literal.toList before ∧
        Stands (tree.render true).toList (hang^[around] literal.toList) before ∧
        (Stands (tree.render true).toList literal.toList before ↔
          around = 0 ∨ o.formattedStrings = false ∨ '\n' ∉ text.toList) := by
  intro tree literal around
  have htoken : tree.tokenAt m.state.current (m.state.tree.tokens m.state.current).size =
      some (.value literal none) := by
    refine tokenAt_decode hsteps htakes ?_
    have heffect : (o.context levels).effect m.state.depth m.instruction = .value literal :=
      Instruction.effect_of_quoted? _ _ htext
    rw [heffect]
    rfl
  have hframed : Framed literal.toList := Quoted.framed_literal _ _
  have hreturn : '\r' ∉ literal.toList := Quoted.return_not_mem_literal
  obtain ⟨path, hgrown⟩ := grown_decode (o.context levels) body
  have hn : tree.Named := hgrown.toNamed
  obtain ⟨outer, hpath, -⟩ := m.state.exists_path_eq
  have hspine : tree.Spine (m.state.current :: outer) := hpath ▸ spine_decode hsteps
  -- from the token to its scope, and from there to the root
  have hscope := hn.standAlike_scopeText htoken (.refl _ _) hframed hreturn
  have hrender : StandAlike (tree.render false).toList literal.toList (tree.render true).toList
      (hang^[around] literal.toList) := by
    have haround : around = tree.brackets outer +
        if (tree.kind? m.state.current).any ScopeKind.enclosed then 1 else 0 := by
      show tree.brackets m.state.path = _
      rw [hpath]
      exact List.countP_cons
    rw [haround]
    split at hscope
    · rename_i henclosed
      rw [if_pos henclosed]
      exact hn.standAlike_render hspine hscope hframed.hang
        ((mem_hangFrom_iff false (by decide)).not.2 hreturn)
    · rename_i hplain
      rw [if_neg hplain]
      exact hn.standAlike_render hspine hscope hframed hreturn
  obtain ⟨before, hunformatted, hformatted⟩ := hrender
  refine ⟨htoken, before, hunformatted, hformatted, ?_⟩
  have hfeed : '\n' ∉ literal.toList ↔ o.formattedStrings = false ∨ '\n' ∉ text.toList := by
    rw [Quoted.feed_mem_literal_iff, not_and_or, Bool.not_eq_true]
  rw [← hfeed, ← iterate_hang_eq_iff hframed]
  constructor
  · intro hkept
    exact hformatted.unique hkept (hframed.iterate_hang _) hframed (solid_iterate_hang _ _)
  · intro hsame
    rwa [hsame] at hformatted

/-- The text of two lines in an array, with its line feed escaped. -/
theorem literal_stands_in_array :
    let body := [0xe0, 0xea, 0xce, 3, 0x61, 0x0a, 0x62, 0xe1]
    let tree := ((({} : Options).context 64).decode body).tree
    tree.render false = "[\"a\\nb\"]" ∧
      ∃ before, Stands (tree.render true).toList (Quoted.literal false "a\nb").toList before := by
  intro body tree
  let ctx := ({} : Options).context 64
  let first : Moment := ⟨.initial, ⟨body, 0⟩, .assigned (.opening .array) ()⟩
  let s₁ := first.state.apply (ctx.effect 0 first.instruction)
  let second : Moment := ⟨s₁, ⟨body.drop 1, 1⟩, .assigned .element ()⟩
  let s₂ := s₁.apply (ctx.effect 1 second.instruction)
  let m : Moment := ⟨s₂, ⟨body.drop 2, 2⟩, .assigned .shortText ("a\nb", ())⟩
  have hsteps : ctx.Steps .initial (.ofBytes body) m.state m.start :=
    .head (Takes.step (m := first) ⟨rfl, rfl, rfl⟩)
      (.head (Takes.step (m := second) ⟨rfl, rfl, rfl⟩) (.refl _ _))
  have htext : (utf8 "a\nb").length < 256 := by decide
  have hfits : m.instruction.Fits := ⟨htext, trivial⟩
  have htakes : ctx.Takes m (m.state.apply (ctx.effect 1 m.instruction)) ⟨[0xe1], 7⟩ :=
    ctx.takes_of_write hfits (by decide) (by decide +kernel) (by decide +kernel)
  obtain ⟨-, before, -, -, hkept⟩ := literal_stands_iff {} 64 body hsteps htakes rfl
  exact ⟨by decide +kernel, before, hkept.2 (.inr (.inl rfl))⟩

/-- The text of two lines in parentheses, where line feeds stand for themselves: formatting puts a
margin in front of its second line. -/
theorem literal_with_margin :
    let o : Options := { formattedStrings := true }
    let body := [0x02, 0xce, 3, 0x61, 0x0a, 0x62, 0x03]
    let tree := ((o.context 64).decode body).tree
    let literal := Quoted.literal true "a\nb"
    (∃ m s' c', (o.context 64).Steps .initial (.ofBytes body) m.state m.start ∧
      (o.context 64).Takes m s' c' ∧ m.instruction.quoted? = some "a\nb") ∧
      tree.tokenAt 1 0 = some (.value literal none) ∧
      literal.toList <:+: (tree.render false).toList ∧
      tree.render true = "(\n    \"a\n    b\"\n)" ∧
      ¬ literal.toList <:+: (tree.render true).toList := by
  intro o body tree literal
  let ctx := o.context 64
  let first : Moment := ⟨.initial, ⟨body, 0⟩, .assigned (.opening .subscope) ()⟩
  let s₁ := first.state.apply (ctx.effect 0 first.instruction)
  let m : Moment := ⟨s₁, ⟨body.drop 1, 1⟩, .assigned .shortText ("a\nb", ())⟩
  have hsteps : ctx.Steps .initial (.ofBytes body) m.state m.start :=
    .head (Takes.step (m := first) ⟨rfl, rfl, rfl⟩) (.refl _ _)
  have htext : (utf8 "a\nb").length < 256 := by decide
  have hfits : m.instruction.Fits := ⟨htext, trivial⟩
  have htakes : ctx.Takes m (m.state.apply (ctx.effect 1 m.instruction)) ⟨[0x03], 6⟩ :=
    ctx.takes_of_write hfits (by decide) (by decide +kernel) (by decide +kernel)
  obtain ⟨path, hgrown⟩ := grown_decode ctx body
  have hn : tree.Named := hgrown.toNamed
  have hinner : tree.scopes[1]? = some ⟨.bracket .subscope, #[.value literal none]⟩ := by
    decide +kernel
  have hroot : tree.scopes[0]? = some ⟨.root, #[.scope 1]⟩ := by decide +kernel
  have hindented : ScopeKind.enclose true (.bracket .subscope) literal =
      "(\n    \"a\n    b\"\n)" := by
    unfold ScopeKind.enclose
    rw [String.contains_char_eq]
    decide
  -- a scope of one token is written as the token
  have hvalue : Scope.inner (tree.scopeText true)
      ⟨.bracket .subscope, #[.value literal none]⟩ = literal := by
    simp [Scope.inner, writeTokens, ScopeText.write, ScopeKind.sign?]
  have hscope : Scope.inner (tree.scopeText true) ⟨.root, #[.scope 1]⟩ = tree.scopeText true 1 := by
    simp [Scope.inner, writeTokens, ScopeText.write, ScopeKind.sign?, Token.defer?]
  have hrender : tree.render true = "(\n    \"a\n    b\"\n)" := by
    rw [TokenTree.render, hn.scopeText_eq, TokenTree.root, hroot]
    dsimp only
    rw [hscope, hn.scopeText_eq, hinner]
    dsimp only
    rw [hvalue, hindented]
    rfl
  refine ⟨⟨m, _, _, hsteps, htakes, rfl⟩, by decide +kernel, by decide +kernel, hrender, ?_⟩
  rw [hrender]
  decide

end DecodeContext

end Dxb
