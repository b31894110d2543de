import Dxb.Proofs.Program.Formatting
import Dxb.Proofs.Program.Provenance
import Dxb.Proofs.Text.Brackets

/-!
# Brackets in the text of a tree

Brackets are written around scopes and around the members of connectives, in pairs.  Between the
parentheses of a connective, every join of two members closes the one and opens the next, so a
closing parenthesis stays due (`keeps_writeTokens`).  Where the brackets in the text of every token
are paired, so are those in the text of the tree, by induction over the scopes behind the one being
written (`paired_scopeText`).  How the brackets of the program were opened and closed plays no part
(`paired_render`).
-/

namespace Dxb

open Brackets

/-! ## Fragments -/

theorem paired_actionSign (byte : UInt8) : Paired (Opcode.actionSign byte).toList := by
  unfold Opcode.actionSign
  split <;> decide

/-- There are no brackets in the fragments that instructions defer. -/
theorem Instruction.paired_fragment {i : Instruction} {d : Deferred} (h : i.fragment? = some d) :
    Paired d.text.toList := by
  cases i with
  | unassigned byte => cases h
  | assigned op operands =>
    cases op with
    | extendedType =>
      simp only [fragment?] at h
      split at h
      · cases h
        decide
      · cases h
    | childAction =>
      cases h
      have hspace : Paired " ".toList := by decide
      have hequals : Paired "= ".toList := by decide
      have hsign := paired_actionSign operands.1
      rw [Deferred.text, String.toList_append, String.toList_append]
      exact ((hspace.keeps []).append (hsign.keeps [])).append (hequals.keeps [])
    | childSet | childSetReference | range =>
      cases h
      decide
    | _ => cases h

/-! ## Scopes -/

/-- What is due while the tokens of a scope are written. -/
def dueWithin (sign : Option String) : List Char := if sign.isSome then [')'] else []

/-- The brackets are paired in the text that a token is written with and in the fragment that it
defers. -/
structure Token.PairedWith (child : Nat → String) (token : Token) : Prop where
  text : Paired ((token.scope?.map child).getD token.text).toList
  fragment : ∀ d, token.defer? = some d → Paired d.text.toList

variable {sign : Option String} {child : Nat → String}

/-- Between two members a pair of parentheses ends and another one begins. -/
theorem keeps_joint (hsign : ∀ s, sign = some s → Paired s.toList) (hasValue : Bool) :
    Keeps (dueWithin sign) (ScopeText.joint sign hasValue).toList := by
  have hnothing : Paired "".toList := by decide
  cases sign with
  | none => exact hnothing.keeps _
  | some s =>
    cases hasValue with
    | false => exact hnothing.keeps _
    | true =>
      have hclose : due [')'] ") ".toList = some [] := by decide
      have hopen : due [] " (".toList = some [')'] := by decide
      have hmiddle : due [] s.toList = some [] := hsign s rfl
      have hjoint : ScopeText.joint (some s) true = ") " ++ s ++ " (" := rfl
      rw [hjoint, String.toList_append, String.toList_append]
      show due [')'] _ = some [')']
      rw [due_append, due_append, hclose, Option.bind_some, hmiddle, Option.bind_some, hopen]

theorem ScopeText.keeps_write (hsign : ∀ s, sign = some s → Paired s.toList) {t : ScopeText}
    {token : Token} {comma : Bool} {text : String} (ht : Keeps (dueWithin sign) t.written.toList)
    (hpending : ∀ d, t.pending = some d → Paired d.text.toList) (htext : Paired text.toList) :
    Keeps (dueWithin sign) (t.write sign comma token text).written.toList := by
  have hcomma : Paired (if comma then "," else "").toList := by
    cases comma <;> decide
  have hfragment : Paired ((t.pending.map Deferred.text).getD "").toList := by
    cases hp : t.pending with
    | none => decide
    | some d => exact hpending d hp
  rw [written_write]
  simp only [String.toList_append]
  exact ((ht.append (keeps_joint hsign _)).append (htext.keeps _)).append
    ((hcomma.keeps _).append (hfragment.keeps _))

/-- Writing tokens keeps due what is due around the members. -/
theorem keeps_writeTokens (hsign : ∀ s, sign = some s → Paired s.toList) {t : ScopeText}
    {tokens : List Token} (ht : Keeps (dueWithin sign) t.written.toList)
    (hpending : ∀ d, t.pending = some d → Paired d.text.toList)
    (htokens : ∀ token ∈ tokens, token.PairedWith child) :
    Keeps (dueWithin sign) (writeTokens sign child t tokens).written.toList := by
  induction tokens generalizing t with
  | nil => exact ht
  | cons token rest ih =>
    obtain ⟨htoken, hrest⟩ := List.forall_mem_cons.1 htokens
    rw [writeTokens_cons, ScopeText.put_eq]
    exact ih (ScopeText.keeps_write hsign ht hpending htoken.text) htoken.fragment hrest

theorem ScopeKind.paired_sign {kind : ScopeKind} {s : String} (h : kind.sign? = some s) :
    Paired s.toList := by
  cases kind with
  | root | bracket b => cases h
  | connective c =>
    cases h
    cases c <;> decide

theorem Scope.paired_inner {s : Scope} (h : ∀ token ∈ s.tokens, token.PairedWith child) :
    Paired (s.inner child).toList := by
  have hkeeps : Keeps (dueWithin s.kind.sign?)
      (writeTokens s.kind.sign? child ⟨"", none, false⟩ s.tokens.toList).written.toList :=
    keeps_writeTokens (fun _ => ScopeKind.paired_sign) (paired_nil.keeps _) nofun
      fun token htoken => h token (Array.mem_toList_iff.1 htoken)
  unfold Scope.inner
  unfold dueWithin at hkeeps
  dsimp only
  split
  · rename_i hconnective
    rw [if_pos hconnective] at hkeeps
    rw [String.toList_append, String.toList_append]
    exact hkeeps.enclose (by decide) (by decide)
  · rename_i hplain
    rwa [if_neg hplain] at hkeeps

/-- The closing bracket of a kind of scope, which is due in it. -/
theorem Bracket.exists_due (b : Bracket) :
    ∃ before, due [] b.opener.toList = some before ∧ due before b.closer.toList = some [] := by
  cases b with
  | subscope | tuple => exact ⟨[')'], by decide, by decide⟩
  | array => exact ⟨[']'], by decide, by decide⟩
  | object => exact ⟨['\x7d'], by decide, by decide⟩

theorem ScopeKind.paired_enclose (kind : ScopeKind) {inner : String}
    (h : Paired inner.toList) : Paired (kind.enclose false inner).toList := by
  cases kind with
  | root | connective c => exact h
  | bracket b =>
    obtain ⟨before, hopener, hcloser⟩ := b.exists_due
    have henclosed : ScopeKind.enclose false (.bracket b) inner =
        b.opener ++ inner ++ b.closer := rfl
    rw [henclosed, String.toList_append, String.toList_append]
    exact (h.keeps before).enclose hopener hcloser

/-! ## Trees -/

namespace TokenTree

variable {t : TokenTree}

/-- Where the brackets of everything that tokens write are paired, those of every scope are. -/
theorem paired_scopeText
    (htext : ∀ scope ∈ t.scopes, ∀ token ∈ scope.tokens, Paired token.text.toList)
    (hfragment : ∀ scope ∈ t.scopes, ∀ token ∈ scope.tokens, ∀ d, token.defer? = some d →
      Paired d.text.toList) (formatted : Bool) (id : Nat) :
    Paired (t.scopeText formatted id).toList := by
  -- formatting changes the layout only
  rw [← paired_solid_iff, (SameSolid.refl t).solid_scopeText false formatted id,
    paired_solid_iff]
  induction id using scopeText.induct t with
  | case1 id hid ih =>
    have hscope : t.scopes[id] ∈ t.scopes := Array.getElem_mem hid
    rw [scopeText, dif_pos hid]
    refine ScopeKind.paired_enclose _ (Scope.paired_inner fun token htoken => ?_)
    refine ⟨?_, hfragment _ hscope token htoken⟩
    cases hs : token.scope? with
    | none =>
      rw [Option.map_none, Option.getD_none]
      exact htext _ hscope token htoken
    | some child =>
      rw [Option.map_some, Option.getD_some]
      split
      · rename_i hlt
        exact ih child hlt
      · exact paired_nil
  | case2 id hid =>
    rw [scopeText, dif_neg hid]
    exact paired_nil

theorem exists_tokenAt_of_mem {scope : Scope} (hscope : scope ∈ t.scopes) {token : Token}
    (htoken : token ∈ scope.tokens) : ∃ id place, t.tokenAt id place = some token := by
  obtain ⟨id, hid, rfl⟩ := Array.mem_iff_getElem.1 hscope
  obtain ⟨place, hplace, rfl⟩ := Array.mem_iff_getElem.1 htoken
  refine ⟨id, place, ?_⟩
  rw [tokenAt, tokens, Array.getElem?_eq_getElem hid]
  exact Array.getElem?_eq_getElem hplace

end TokenTree

/-- In a tree that was decoded from any bytes, completely or not, the brackets of all scopes are
paired if those in the texts of all tokens are, formatted or not. -/
theorem paired_render (o : Options) (levels : Nat) (body : List UInt8)
    (h : ∀ scope ∈ ((o.context levels).decode body).tree.scopes, ∀ token ∈ scope.tokens,
      Paired token.text.toList) (formatted : Bool) :
    Paired (((o.context levels).decode body).tree.render formatted).toList ∧
      ∀ id, Paired (((o.context levels).decode body).tree.scopeText formatted id).toList := by
  have hscopes : ∀ id,
      Paired (((o.context levels).decode body).tree.scopeText formatted id).toList := by
    refine TokenTree.paired_scopeText h ?_ formatted
    intro scope hscope token htoken d hd
    obtain ⟨id, place, hplace⟩ := TokenTree.exists_tokenAt_of_mem hscope htoken
    obtain ⟨m, s', c', -, -, -, -, htoken⟩ := DecodeContext.exists_takes_of_tokenAt hplace
    rw [DecodeContext.defer?_of_token? htoken] at hd
    exact Instruction.paired_fragment hd
  exact ⟨hscopes TokenTree.root, hscopes⟩

/-- An array that stays open; in it a disjunction of a value and of a parenthesis that is closed by
the end of an array. -/
theorem paired_render_of_open_array :
    let tree := ((({} : Options).context 64).decode
      [0xe0, 0xdc, 2, 0, 0, 0, 0xc6, 0x02, 0xc1, 1, 0xe1, 0xc1, 2]).tree
    tree.render false = "[(true) | ((1))2]" ∧ Paired (tree.render true).toList := by
  intro tree
  refine ⟨by decide +kernel, (paired_render {} 64 _ ?_ true).1⟩
  decide +kernel

end Dxb
