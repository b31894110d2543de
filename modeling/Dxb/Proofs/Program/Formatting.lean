import Mathlib.Data.List.Forall2
import Dxb.Proofs.Program.Options
import Dxb.Proofs.Program.Writing
import Dxb.Proofs.Text.Indentation

/-!
# What formatting leaves alone

Formatting indents the text of a scope, and that of a nested program while the program around it is
still being decoded.  Both change nothing but the layout: spaces, line feeds and carriage returns.
Trees that have the same tokens but for layout (`TokenTree.SameSolid`) have the same text but for
layout, formatted or not (`SameSolid.solid_scopeText`); the trees that are decoded with and without
formatting are such trees, by induction on the levels for nested programs (`bare_decompileWithin`).
-/

namespace Dxb

open Lines (solid solid_append solid_indent solid_trimEnd solid_chomp)

/-! ## Tokens -/

namespace Token

theorem isMember_shape (token : Token) : token.shape.isMember = token.isMember := by
  cases token <;> rfl

theorem isSeparator_shape (token : Token) : token.shape.isSeparator = token.isSeparator := by
  cases token <;> rfl

theorem defer?_shape (token : Token) : token.shape.defer? = token.defer? := by
  cases token <;> rfl

theorem scope?_shape (token : Token) : token.shape.scope? = token.scope? := by
  cases token <;> rfl

/-- Two tokens are the same but for layout in their texts. -/
structure SameSolid (a b : Token) : Prop where
  shape : b.shape = a.shape
  text : solid b.text.toList = solid a.text.toList

end Token

/-! ## Writing -/

namespace ScopeText

/-- Two texts of a scope have come equally far, but for layout. -/
structure SameSolid (t u : ScopeText) : Prop where
  written : solid u.written.toList = solid t.written.toList
  pending : u.pending = t.pending
  hasValue : u.hasValue = t.hasValue

variable {sign : Option String} {comma : Bool} {t u : ScopeText} {a b : Token}

theorem SameSolid.write (h : t.SameSolid u) (hab : b.shape = a.shape) {text text' : String}
    (htext : solid text'.toList = solid text.toList) :
    (t.write sign comma a text).SameSolid (u.write sign comma b text') := by
  have hmember : b.isMember = a.isMember := by
    rw [← Token.isMember_shape, hab, Token.isMember_shape]
  have hdefer : b.defer? = a.defer? := by
    rw [← Token.defer?_shape, hab, Token.defer?_shape]
  unfold ScopeText.write
  rw [h.pending, h.hasValue, hmember, hdefer]
  refine ⟨?_, rfl, rfl⟩
  simp only [String.toList_append, solid_append, h.written, htext]

end ScopeText

/-- Tokens that are the same but for layout are written as the same but for layout. -/
theorem solid_writeTokens {sign : Option String} {f g : Nat → String} {tokens tokens' : List Token}
    (htokens : List.Forall₂ Token.SameSolid tokens tokens')
    (hchild : ∀ id, .scope id ∈ tokens → solid (g id).toList = solid (f id).toList)
    {t u : ScopeText} (h : t.SameSolid u) :
    (writeTokens sign f t tokens).SameSolid (writeTokens sign g u tokens') := by
  induction htokens generalizing t u with
  | nil => exact h
  | @cons a b rest rest' hab hrest ih =>
    have hcomma : rest'.head?.any Token.isSeparator = rest.head?.any Token.isSeparator := by
      cases hrest with
      | nil => rfl
      | cons hnext _ =>
        show Token.isSeparator _ = Token.isSeparator _
        rw [← Token.isSeparator_shape, hnext.shape, Token.isSeparator_shape]
    have hscope : b.scope? = a.scope? := by
      rw [← Token.scope?_shape, hab.shape, Token.scope?_shape]
    have htext : solid ((b.scope?.map g).getD b.text).toList =
        solid ((a.scope?.map f).getD a.text).toList := by
      rw [hscope]
      cases hs : a.scope? with
      | none => exact hab.text
      | some id =>
        have ha : a = .scope id := Token.scope?_eq_some_iff.1 hs
        exact hchild id (ha ▸ List.mem_cons_self)
    rw [writeTokens_cons, writeTokens_cons, ScopeText.put_eq, ScopeText.put_eq, hcomma]
    exact ih (fun id hid => hchild id (List.mem_cons_of_mem _ hid)) (h.write hab.shape htext)

theorem Scope.solid_inner {f g : Nat → String} {s s' : Scope} (hkind : s'.kind = s.kind)
    (htokens : List.Forall₂ Token.SameSolid s.tokens.toList s'.tokens.toList)
    (hchild : ∀ id, .scope id ∈ s.tokens.toList → solid (g id).toList = solid (f id).toList) :
    solid (s'.inner g).toList = solid (s.inner f).toList := by
  let start : ScopeText := ⟨"", none, false⟩
  have hsame : start.SameSolid start := ⟨rfl, rfl, rfl⟩
  have hwritten : (writeTokens s.kind.sign? f start s.tokens.toList).SameSolid
      (writeTokens s.kind.sign? g start s'.tokens.toList) :=
    solid_writeTokens htokens hchild hsame
  unfold Scope.inner
  rw [hkind]
  dsimp only
  split
  · simp only [String.toList_append, solid_append, hwritten.written, start]
  · exact hwritten.written

/-- Without layout, a text stands between its brackets as it is. -/
theorem ScopeKind.solid_enclose (formatted : Bool) (kind : ScopeKind) (inner : String) :
    solid (kind.enclose formatted inner).toList = match kind.brackets? with
      | none => solid inner.toList
      | some (opener, closer) =>
        solid opener.toList ++ solid inner.toList ++ solid closer.toList := by
  unfold ScopeKind.enclose
  cases kind.brackets? with
  | none => rfl
  | some brackets =>
    dsimp only
    split
    · have hfeed : solid "\n".toList = [] := by decide
      simp only [String.toList_append, solid_append, String.toList_ofList, solid_indent,
        solid_trimEnd, hfeed, List.append_nil]
    · simp only [String.toList_append, solid_append]

/-! ## Trees -/

namespace TokenTree

/-- Two trees are the same but for layout in the texts of their tokens. -/
structure SameSolid (t u : TokenTree) : Prop where
  shape : u.shape = t.shape
  text : ∀ id place a b, t.tokenAt id place = some a → u.tokenAt id place = some b →
    solid b.text.toList = solid a.text.toList

namespace SameSolid

variable {t u : TokenTree}

theorem refl (t : TokenTree) : t.SameSolid t :=
  ⟨rfl, fun id place a b ha hb => by rw [Option.some.inj (ha.symm.trans hb)]⟩

theorem exists_scope (h : t.SameSolid u) {id : Nat} {s : Scope} (hs : t.scopes[id]? = some s) :
    ∃ s', u.scopes[id]? = some s' ∧ s'.kind = s.kind ∧
      List.Forall₂ Token.SameSolid s.tokens.toList s'.tokens.toList := by
  have hscopes : u.scopes[id]?.map Scope.shape = some s.shape := by
    rw [← getElem?_shape, h.shape, getElem?_shape, hs]
    rfl
  obtain ⟨s', hs', hshape⟩ := Option.map_eq_some_iff.1 hscopes
  have hkind : s'.kind = s.kind := (Scope.mk.inj hshape).1
  have htokens : s'.tokens.map Token.shape = s.tokens.map Token.shape := (Scope.mk.inj hshape).2
  have htoken : ∀ place, t.tokenAt id place = s.tokens[place]? := by
    intro place
    rw [tokenAt, tokens, hs]
    rfl
  have htoken' : ∀ place, u.tokenAt id place = s'.tokens[place]? := by
    intro place
    rw [tokenAt, tokens, hs']
    rfl
  refine ⟨s', hs', hkind, List.forall₂_iff_get.2 ⟨?_, ?_⟩⟩
  · simpa using (congrArg Array.size htokens).symm
  · intro place hplace hplace'
    rw [List.get_eq_getElem, List.get_eq_getElem]
    have ha : s.tokens[place]? = some s.tokens.toList[place] := by
      rw [← Array.getElem?_toList, List.getElem?_eq_getElem hplace]
    have hb : s'.tokens[place]? = some s'.tokens.toList[place] := by
      rw [← Array.getElem?_toList, List.getElem?_eq_getElem hplace']
    refine ⟨?_, h.text id place _ _ ((htoken place).trans ha) ((htoken' place).trans hb)⟩
    have hplaces := congrArg (fun tokens : Array Token => tokens[place]?) htokens
    rw [Array.getElem?_map, Array.getElem?_map, ha, hb] at hplaces
    exact Option.some.inj hplaces

/-- Every scope has the same text but for layout, formatted or not. -/
theorem solid_scopeText (h : t.SameSolid u) (f g : Bool) (id : Nat) :
    solid (u.scopeText g id).toList = solid (t.scopeText f id).toList := by
  have hsize : u.scopes.size = t.scopes.size := by
    have hshapes := congrArg size h.shape
    rwa [size_shape, size_shape] at hshapes
  -- the induction is on the scopes behind the one being written
  induction id using scopeText.induct t with
  | case1 id hid ih =>
    obtain ⟨s', hs', hkind, htokens⟩ := h.exists_scope (Array.getElem?_eq_getElem hid)
    have hid' : id < u.scopes.size := hsize ▸ hid
    have hscope' : u.scopes[id] = s' := by
      rw [Array.getElem?_eq_getElem hid'] at hs'
      exact Option.some.inj hs'
    rw [scopeText, dif_pos hid', scopeText, dif_pos hid]
    dsimp only
    rw [hscope', hkind, ScopeKind.solid_enclose, ScopeKind.solid_enclose]
    rw [Scope.solid_inner hkind htokens]
    intro child _
    split
    · rename_i hlt
      exact ih child hlt
    · rfl
  | case2 id hid =>
    have hid' : ¬ id < u.scopes.size := hsize ▸ hid
    rw [scopeText, dif_neg hid', scopeText, dif_neg hid]

end SameSolid

end TokenTree

/-! ## Programs -/

/-- A script without its layout. -/
def bare (script : Option String) : Option (List Char) := script.map fun text => solid text.toList

namespace Options

variable {o₁ o₂ : Options}

/-- Options that differ in formatting only write different tokens for nested programs only. -/
theorem Differ.solid_text (hcomments : o₁.comments = o₂.comments)
    (hstrings : o₁.formattedStrings = o₂.formattedStrings) {inner : Nat} {i : Instruction}
    {a b : Token} (h : o₁.Differ o₂ inner i a b)
    (hnested : ∀ program, i.program? = some program →
      bare (decompileWithin o₂ inner program) = bare (decompileWithin o₁ inner program)) :
    solid b.text.toList = solid a.text.toList := by
  cases h with
  | quoted _ hoptions => exact absurd hstrings hoptions
  | noted _ hoptions => exact absurd hcomments hoptions
  | nested hprogram h₁ h₂ =>
    have htext := hnested _ hprogram
    rw [h₁, h₂] at htext
    simp only [Token.text, String.toList_append, solid_append, Option.some.inj htext]

end Options

/-- Programs that are decoded alike but for layout, and end alike, have such scripts. -/
theorem Decoded.bare_script {d e : Decoded} (htree : d.tree.SameSolid e.tree)
    (herror : e.error = d.error) (f g : Bool) : bare (e.script g) = bare (d.script f) := by
  unfold Decoded.script TokenTree.render bare
  rw [Option.map_map, Option.map_map, herror]
  congr 1
  funext mark
  dsimp only [Function.comp_apply]
  rw [solid_chomp, solid_chomp, String.toList_append, String.toList_append, solid_append,
    solid_append, htree.solid_scopeText f g]

theorem bare_decompileWithin (o₁ o₂ : Options) (hcomments : o₁.comments = o₂.comments)
    (hstrings : o₁.formattedStrings = o₂.formattedStrings) (levels : Nat) (body : List UInt8) :
    bare (decompileWithin o₂ levels body) = bare (decompileWithin o₁ levels body) := by
  induction levels using Nat.strongRecOn generalizing body with
  | ind levels ih =>
    obtain ⟨c', ⟨-, hshape, htokens⟩, herror⟩ :=
      (DecodeContext.lockstep_options o₁ o₂ levels body).run_here
        (DecodeContext.sameShape_initial o₁ o₂ levels body)
    have hsame : ((o₁.context levels).decode body).tree.SameSolid
        ((o₂.context levels).decode body).tree := by
      refine ⟨congrArg DecoderState.tree hshape, ?_⟩
      intro id place a b ha hb
      rcases htokens id place a b ha hb with heq | ⟨m, s', c, -, htakes, -, -, hdiffer⟩
      · rw [heq]
      · refine hdiffer.solid_text hcomments hstrings fun program hprogram => ih _ ?_ program
        have hroom : m.state.depth < levels := htakes.room (Instruction.nests_of_program? hprogram)
        omega
    rw [decompileWithin_eq_script, decompileWithin_eq_script]
    exact Decoded.bare_script hsame herror _ _

/-- Two outputs that were made with and without formatting are the same without their spaces, line
feeds and carriage returns: of a message, whatever it is and however it ends; of a program nested in
it, at every level; and of each scope of a token tree. -/
theorem decompile_formatted (o : Options) (f g : Bool) :
    (∀ message, bare (decompile { o with formatted := f } message) =
      bare (decompile { o with formatted := g } message)) ∧
    (∀ levels body, bare (decompileWithin { o with formatted := f } levels body) =
      bare (decompileWithin { o with formatted := g } levels body)) ∧
    ∀ (t : TokenTree) (id : Nat), solid (t.scopeText f id).toList =
      solid (t.scopeText g id).toList := by
  have hprogram : ∀ levels body,
      bare (decompileWithin { o with formatted := f } levels body) =
        bare (decompileWithin { o with formatted := g } levels body) :=
    fun levels body => bare_decompileWithin { o with formatted := g } { o with formatted := f }
      rfl rfl levels body
  refine ⟨?_, hprogram, ?_⟩
  · intro message
    unfold decompile decompileBody
    dsimp only
    split
    · split
      · exact hprogram _ _
      · rfl
    · exact hprogram _ _
  · intro t id
    have hsame : t.SameSolid t :=
      ⟨rfl, fun id place a b ha hb => by rw [Option.some.inj (ha.symm.trans hb)]⟩
    exact hsame.solid_scopeText g f id

end Dxb
