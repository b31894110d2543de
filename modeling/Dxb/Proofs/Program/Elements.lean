import Mathlib.Data.List.SplitBy
import Dxb.Proofs.Program.Unguarded
import Dxb.Proofs.Program.Writing

/-!
# The elements of a scope

The tokens of a scope are cut into elements, a new one at every separator (`Scope.elements`).  A
comma is written in front of a separator, but a fragment that is pending then comes behind that
comma.  So where the last token of no element defers anything, the text of a scope is that of its
elements with commas between them if and only if no element that another one follows has a fragment
written at its end (`content_eq_elements_iff`).
-/

namespace Dxb

/-! ## Cutting -/

/-- One scope for each element of a scope. -/
def Scope.elements (s : Scope) : List Scope :=
  (s.tokens.toList.splitBy fun _ next => !next.isSeparator).map fun tokens =>
    ⟨s.kind, tokens.toArray⟩

/-- What the last of some tokens leaves to be written. -/
def deferredBy (tokens : List Token) : Option Deferred := tokens.getLast?.bind Token.defer?

/-- The fragment that an element leaves to be written behind it. -/
def Scope.defers? (s : Scope) : Option Deferred := deferredBy s.tokens.toList

/-- The fragment that is written behind the last token of an element. -/
def Scope.closing? (s : Scope) : Option Deferred := deferredBy s.tokens.toList.dropLast

/-- Every new element starts at a separator. -/
theorem isChain_elements (tokens : List Token) :
    (tokens.splitBy fun _ next => !next.isSeparator).IsChain fun a b =>
      a ≠ [] ∧ b.head?.any Token.isSeparator = true := by
  refine (List.isChain_getLast_head_splitBy _ tokens).imp ?_
  rintro a b ⟨hne, hb, hseparator⟩
  refine ⟨hne, ?_⟩
  rw [List.head?_eq_some_head hb]
  simpa using hseparator

/-! ## Writing one element -/

/-- No fragment begins with a comma. -/
theorem Deferred.comma_text_ne (d : Deferred) (a b : String) :
    "," ++ (d.text ++ a) ≠ d.text ++ b := by
  intro h
  have hchars := congrArg String.toList h
  cases d <;> simp [Deferred.text] at hchars

/-- A fragment as it is written. -/
def fragment (d : Option Deferred) : String := (d.map Deferred.text).getD ""

/-- What is pending in front of the last token, where `before` was pending in front of the first. -/
def pendingAtLast (before : Option Deferred) (tokens : List Token) : Option Deferred :=
  (tokens.dropLast.getLast?.map Token.defer?).getD before

theorem pendingAtLast_cons (before : Option Deferred) (token : Token) {tokens : List Token}
    (h : tokens ≠ []) :
    pendingAtLast before (token :: tokens) = pendingAtLast token.defer? tokens := by
  unfold pendingAtLast
  rw [List.dropLast_cons_of_ne_nil h, List.getLast?_cons]
  cases tokens.dropLast.getLast? <;> rfl

theorem pendingAtLast_none (tokens : List Token) :
    pendingAtLast none tokens = deferredBy tokens.dropLast := by
  unfold pendingAtLast deferredBy
  cases tokens.dropLast.getLast? <;> rfl

/-- What is written behind the last token stands behind the comma in front of a separator. -/
theorem exists_writeTokens_separator (child : Nat → String) (t : ScopeText) {element : List Token}
    (hne : element ≠ []) :
    ∃ body, (writeTokens none child t element).written =
        body ++ fragment (pendingAtLast t.pending element) ∧
      ∀ rest : List Token, rest.head?.any Token.isSeparator = true →
        writeTokens none child t (element ++ rest) = writeTokens none child
          ⟨body ++ "," ++ fragment (pendingAtLast t.pending element), deferredBy element,
            t.hasValue⟩ rest := by
  induction element generalizing t with
  | nil => exact absurd rfl hne
  | cons token element ih =>
    cases element with
    | nil =>
      refine ⟨t.written ++ (token.scope?.map child).getD token.text, ?_, fun rest hrest => ?_⟩
      · rw [writeTokens_cons, ScopeText.put_eq]
        simp [writeTokens, ScopeText.write, fragment, pendingAtLast]
      · rw [List.singleton_append, writeTokens_cons, ScopeText.put_eq, hrest]
        simp [ScopeText.write, fragment, deferredBy, pendingAtLast]
    | cons next element =>
      have hpending := pendingAtLast_cons t.pending token (List.cons_ne_nil next element)
      have hdeferred : deferredBy (token :: next :: element) = deferredBy (next :: element) := by
        simp [deferredBy]
      obtain ⟨body, hwritten, hrest⟩ :=
        ih (t.put none child (some next) token) (List.cons_ne_nil _ _)
      refine ⟨body, ?_, fun rest hseparator => ?_⟩
      · rw [writeTokens_cons, hpending]
        exact hwritten
      · rw [List.cons_append, writeTokens_cons, hpending, hdeferred]
        exact hrest rest hseparator

/-! ## Writing all of them -/

/-- The text of some tokens by themselves. -/
def writtenAlone (child : Nat → String) (tokens : List Token) : String :=
  (writeTokens none child ⟨"", none, false⟩ tokens).written

/-- Elements are written with commas between them where none that another one follows has a fragment
at its end. -/
theorem written_flatten_eq_iff (child : Nat → String) {elements : List (List Token)}
    (hchain : elements.IsChain fun a b => a ≠ [] ∧ b.head?.any Token.isSeparator = true)
    (hlast : ∀ element ∈ elements, deferredBy element = none) :
    writtenAlone child elements.flatten = ",".intercalate (elements.map (writtenAlone child)) ↔
      ∀ element ∈ elements.dropLast, deferredBy element.dropLast = none := by
  induction elements with
  | nil => simp [writtenAlone, writeTokens]
  | cons element rest ih =>
    cases rest with
    | nil => simp
    | cons next more =>
      obtain ⟨⟨hne, hnext⟩, hrestChain⟩ := List.isChain_cons_cons.1 hchain
      have hlasts := List.forall_mem_cons.1 hlast
      have hseparator : (next :: more).flatten.head?.any Token.isSeparator = true := by
        cases next with
        | nil => cases hnext
        | cons token tokens => exact hnext
      obtain ⟨body, hwritten, hrest⟩ :=
        exists_writeTokens_separator child ⟨"", none, false⟩ hne
      rw [pendingAtLast_none] at hwritten hrest
      have hall : writtenAlone child (element :: next :: more).flatten =
          body ++ "," ++ fragment (deferredBy element.dropLast) ++
            writtenAlone child (next :: more).flatten := by
        rw [List.flatten_cons, writtenAlone, hrest _ hseparator, hlasts.1, writtenAlone,
          ← written_writeTokens, String.append_empty]
      have helement : writtenAlone child element =
          body ++ fragment (deferredBy element.dropLast) := hwritten
      rw [hall, List.map_cons, List.map_cons, String.intercalate_cons_cons, helement,
        List.dropLast_cons_of_ne_nil (by simp), List.forall_mem_cons]
      cases hclosing : deferredBy element.dropLast with
      | none =>
        rw [fragment, Option.map_none, Option.getD_none, String.append_empty, String.append_empty,
          String.append_right_inj, ← List.map_cons, ih hrestChain hlasts.2]
        simp
      | some d =>
        refine iff_of_false (fun h => ?_) (fun h => Option.some_ne_none d h.1)
        rw [fragment, Option.map_some, Option.getD_some] at h
        simp only [String.append_assoc, String.append_right_inj] at h
        exact d.comma_text_ne _ _ h

/-! ## Decoded trees -/

namespace Scope

theorem inner_of_sign {s : Scope} (h : s.kind.sign? = none) (child : Nat → String) :
    s.inner child = writtenAlone child s.tokens.toList := by
  unfold Scope.inner
  rw [h]
  rfl

/-- The text of a scope that is no connective, from the texts of its elements. -/
theorem inner_eq_elements_iff {s : Scope} (hkind : s.kind.sign? = none)
    (hlast : ∀ e ∈ s.elements, e.defers? = none) (child : Nat → String) :
    s.inner child = ",".intercalate (s.elements.map (·.inner child)) ↔
      ∀ e ∈ s.elements.dropLast, e.closing? = none := by
  have hcut := List.flatten_splitBy (fun _ next : Token => !next.isSeparator) s.tokens.toList
  have hiff := written_flatten_eq_iff child
    (isChain_elements s.tokens.toList) (fun element he => hlast _ (List.mem_map_of_mem he))
  rw [hcut] at hiff
  have htexts : s.elements.map (·.inner child) =
      (s.tokens.toList.splitBy fun _ next => !next.isSeparator).map (writtenAlone child) := by
    rw [elements, List.map_map]
    exact List.map_congr_left fun tokens _ => inner_of_sign (s := ⟨s.kind, tokens.toArray⟩) hkind _
  rw [inner_of_sign hkind, htexts, hiff, elements, ← List.map_dropLast, List.forall_mem_map]
  rfl

end Scope

theorem named_decodeMessage (o : Options) (message : List UInt8) :
    (decodeMessage o message).tree.Named := by
  have hbody : ∀ body, (decodeBody o body).tree.Named := by
    intro body
    obtain ⟨path, hgrown⟩ := (o.context Instruction.maxDepth).grown_decode body
    exact hgrown.isTree.toNamed
  unfold decodeMessage
  split
  · split
    · exact hbody _
    · exact (TokenTree.Grown.empty Instruction.maxDepth).isTree.toNamed
  · exact hbody _

/-- In a decoded tree, the text of a scope that is no connective and whose elements leave nothing to
be written is that of its elements with commas between them, if and only if none of these but the
last one has a fragment written at its end. -/
theorem content_eq_elements_iff (o : Options) (message : List UInt8) {id : Nat} {s : Scope}
    (hs : (decodeMessage o message).tree.scopes[id]? = some s)
    (hkind : ∀ c, s.kind ≠ .connective c) (hlast : ∀ e ∈ s.elements, e.defers? = none)
    (formatted : Bool) :
    let child := (decodeMessage o message).tree.scopeText formatted
    child id = s.kind.enclose formatted (s.inner child) ∧
      (s.inner child = ",".intercalate (s.elements.map (·.inner child)) ↔
        ∀ e ∈ s.elements.dropLast, e.closing? = none) := by
  intro child
  have hsign : s.kind.sign? = none := by
    cases hk : s.kind with
    | root => rfl
    | bracket b => rfl
    | connective c => exact absurd hk (hkind c)
  refine ⟨?_, Scope.inner_eq_elements_iff hsign hlast child⟩
  have htext := (named_decodeMessage o message).scopeText_eq formatted id
  rw [hs] at htext
  exact htext

/-- The array of the number `2` and of a type `a` with the parameter `1`. -/
theorem content_eq_elements_typed :
    let message := [0xe0, 0xea, 0xc1, 2, 0xea, 0xda, 0, 1, 0, 1, 0x61, 0xe4, 0xc1, 1, 0xe5, 0xe1]
    let child := (decodeMessage { hasHeader := false } message).tree.scopeText false
    ∃ s : Scope, (decodeMessage { hasHeader := false } message).tree.scopes[1]? = some s ∧
      child 1 = s.kind.enclose false (s.inner child) ∧ s.elements.length = 2 ∧
      s.inner child = ",".intercalate (s.elements.map (·.inner child)) := by
  intro message child
  let s : Scope := ⟨.bracket .array, #[.separator "", .value "2" none, .separator "",
    .value "<a" (some .closeType), .scope 2]⟩
  have hs : (decodeMessage { hasHeader := false } message).tree.scopes[1]? = some s := by
    decide +kernel
  obtain ⟨hchild, hiff⟩ := content_eq_elements_iff { hasHeader := false } message hs
    nofun (by decide +kernel) false
  exact ⟨s, hs, hchild, by decide +kernel, hiff.2 (by decide +kernel)⟩

/-- With the type in front, the comma stands before the bracket that closes the type. -/
theorem comma_before_closing_fragment :
    let message := [0xe0, 0xea, 0xda, 0, 1, 0, 1, 0x61, 0xe4, 0xc1, 1, 0xe5, 0xea, 0xc1, 2, 0xe1]
    let child := (decodeMessage { hasHeader := false } message).tree.scopeText false
    ∃ s : Scope, (decodeMessage { hasHeader := false } message).tree.scopes[1]? = some s ∧
      (∀ c, s.kind ≠ .connective c) ∧ (∀ e ∈ s.elements, e.defers? = none) ∧
      s.inner child = "<a(1),>2" ∧
      ",".intercalate (s.elements.map (·.inner child)) = "<a(1)>,2" := by
  intro message child
  refine ⟨⟨.bracket .array, #[.separator "", .value "<a" (some .closeType), .scope 2,
    .separator "", .value "2" none]⟩, ?_, nofun, ?_, ?_, ?_⟩
  all_goals decide +kernel

end Dxb
