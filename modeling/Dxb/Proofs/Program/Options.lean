import Dxb.Proofs.Program.Unguarded

/-!
# What options decide

Options decide how three things are written: the text literals of a program, the notes where an
initialiser ends, and the programs nested in it.  They decide nothing else.  Decoding a program with
any options goes through the same instructions and ends in the same way, and without their texts the
trees are the same (`TokenTree.shape`); a token that is not the same was appended by an instruction
that writes one of these three things (`decode_options`).
-/

namespace Dxb

/-! ## Trees without texts -/

/-- What is left of a token without its text. -/
def Token.shape : Token → Token
  | .value _ d => .value "" d
  | .operator _ d => .operator "" d
  | .separator _ => .separator ""
  | .scope id => .scope id

def Scope.shape (s : Scope) : Scope := { s with tokens := s.tokens.map Token.shape }

def Effect.shape : Effect → Effect
  | .append token counts => .append token.shape counts
  | .nothing => .nothing
  | .opens kind members => .opens kind members
  | .closes => .closes
  | .panics => .panics

theorem Effect.shape_eq_panics_iff {effect : Effect} :
    effect.shape = .panics ↔ effect = .panics := by
  cases effect with
  | panics => exact Iff.rfl
  | _ => exact ⟨nofun, nofun⟩

/-- The token that an effect appends to the current scope of a tree of the given size. -/
def Effect.token? (size : Nat) : Effect → Option Token
  | .append token _ => some token
  | .opens _ _ => some (.scope size)
  | _ => none

namespace TokenTree

/-- A tree without the texts of its tokens. -/
def shape (t : TokenTree) : TokenTree := ⟨t.scopes.map Scope.shape⟩

theorem size_shape (t : TokenTree) : t.shape.size = t.size := Array.size_map

theorem getElem?_shape (t : TokenTree) (p : Nat) :
    t.shape.scopes[p]? = t.scopes[p]?.map Scope.shape :=
  Array.getElem?_map

theorem tokens_shape (t : TokenTree) (id : Nat) :
    t.shape.tokens id = (t.tokens id).map Token.shape := by
  rw [tokens, getElem?_shape, tokens]
  cases t.scopes[id]? with
  | none => exact Array.map_empty.symm
  | some scope => rfl

theorem shape_push (t : TokenTree) (id : Nat) (token : Token) :
    (t.push id token).shape = t.shape.push id token.shape := by
  apply eq_of_getElem?
  intro p
  rw [getElem?_push, getElem?_shape, getElem?_shape, getElem?_push]
  by_cases hp : id = p
  · rw [if_pos hp, if_pos hp]
    cases t.scopes[p]? with
    | none => rfl
    | some scope => simp [Scope.shape]
  · rw [if_neg hp, if_neg hp]

theorem shape_openScope (t : TokenTree) (parent : Nat) (kind : ScopeKind) :
    (t.openScope parent kind).shape = t.shape.openScope parent kind := by
  have hpush := shape_push t parent (.scope t.size)
  unfold openScope
  dsimp only
  rw [size_shape]
  show _ = (⟨(t.shape.push parent (Token.scope t.size).shape).scopes.push ⟨kind, #[]⟩⟩ : TokenTree)
  rw [← hpush]
  simp [shape, Scope.shape]

end TokenTree

namespace DecoderState

variable {s t : DecoderState}

def shape (s : DecoderState) : DecoderState := { s with tree := s.tree.shape }

/-- Texts play no part in what an effect does to the scopes. -/
theorem shape_apply (s : DecoderState) (effect : Effect) :
    (s.apply effect).shape = s.shape.apply effect.shape := by
  cases effect with
  | nothing => rfl
  | append token counts =>
    exact congrArg (fun tree => (⟨tree, _⟩ : DecoderState)) (s.tree.shape_push s.current token)
  | opens kind members =>
    have hopen := s.tree.shape_openScope s.current kind
    have hcurrent : s.shape.current = s.current := rfl
    unfold apply
    dsimp only [Effect.shape]
    rw [hcurrent]
    split
    · simp only [shape, hopen]
    · simp only [shape, hopen, TokenTree.size_shape]
  | closes =>
    obtain ⟨tree, scopes⟩ := s
    cases scopes <;> rfl
  | panics => rfl

theorem openScopes_eq_of_shape (h : t.shape = s.shape) : t.openScopes = s.openScopes := by
  have hscopes := congrArg openScopes h
  exact hscopes

theorem current_eq_of_shape (h : t.shape = s.shape) : t.current = s.current := by
  unfold current
  rw [openScopes_eq_of_shape h]

theorem size_eq_of_shape (h : t.shape = s.shape) : t.tree.size = s.tree.size := by
  have hsize := congrArg (fun s => s.tree.size) h
  exact (TokenTree.size_shape _).symm.trans (hsize.trans (TokenTree.size_shape _))

theorem size_tokens_eq_of_shape (h : t.shape = s.shape) (id : Nat) :
    (t.tree.tokens id).size = (s.tree.tokens id).size := by
  have htokens : t.tree.shape.tokens id = s.tree.shape.tokens id :=
    congrArg (fun s => s.tree.tokens id) h
  rw [TokenTree.tokens_shape, TokenTree.tokens_shape] at htokens
  simpa using congrArg Array.size htokens

/-- The only new token is the one that an effect appends to the current scope. -/
theorem tokenAt_apply (hs : s.current < s.tree.size) (effect : Effect) (id place : Nat) :
    (s.apply effect).tree.tokenAt id place =
      if id = s.current ∧ place = (s.tree.tokens s.current).size then effect.token? s.tree.size
      else s.tree.tokenAt id place := by
  have hsame : s.tree.tokenAt id place =
      if id = s.current ∧ place = (s.tree.tokens s.current).size then none
      else s.tree.tokenAt id place := by
    split
    · rename_i hlast
      rw [hlast.1, hlast.2]
      exact Array.getElem?_size
    · rfl
  cases effect with
  | nothing => exact hsame
  | append token counts => exact TokenTree.tokenAt_push hs token id place
  | opens kind members =>
    have hopen : (s.tree.openScope s.current kind).tokenAt id place =
        (s.tree.push s.current (.scope s.tree.size)).tokenAt id place := by
      unfold TokenTree.tokenAt
      rw [TokenTree.tokens_openScope hs, ← TokenTree.tokens_push hs]
    have htoken := hopen.trans (TokenTree.tokenAt_push hs _ id place)
    dsimp only [apply]
    split
    · exact htoken
    · exact htoken
  | closes =>
    obtain ⟨tree, scopes⟩ := s
    cases scopes <;> exact hsame
  | panics => exact hsame

end DecoderState

/-! ## Instructions that options matter to -/

namespace Instruction

/-- The text literal that an instruction writes. -/
def quoted? : Instruction → Option String
  | assigned .text (s, _) => some s
  | assigned .shortText (s, _) => some s
  | _ => none

/-- What an instruction writes before a note, and the target in the note. -/
def noted? : Instruction → Option (String × UInt32)
  | assigned .initPointer (id, target, _) => some (Literal.pointer id ++ " :=", target)
  | assigned (.initVariable space) (name, target, _) =>
    some (Literal.variableName (Literal.sigil space) name ++ " :=", target)
  | assigned .defaultValue (target, _) => some (" default", target)
  | _ => none

variable {i : Instruction} (o : Options) (nested : List UInt8 → Option String)

theorem effect_of_quoted? {s : String} (h : i.quoted? = some s) :
    i.effect o nested = .value (Quoted.literal o.formattedStrings s) := by
  cases i with
  | unassigned byte => cases h
  | assigned op operands =>
    cases op with
    | text | shortText =>
      cases h
      rfl
    | _ => cases h

theorem effect_of_noted? {head : String} {target : UInt32} (h : i.noted? = some (head, target)) :
    i.effect o nested = .operator (head ++ o.jumpNote target) := by
  cases i with
  | unassigned byte => cases h
  | assigned op operands =>
    cases op with
    | initPointer | initVariable space | defaultValue =>
      cases h
      rfl
    | _ => cases h

theorem effect_of_program? {program : List UInt8} (h : i.program? = some program) :
    i.effect o nested = .written ((nested program).map fun text => "(" ++ text ++ ")") := by
  rw [eq_of_program? h]
  rfl

/-- Without any of the three, an instruction does the same under all options. -/
theorem effect_of_plain (o' : Options) (nested' : List UInt8 → Option String)
    (hquoted : i.quoted? = none) (hnoted : i.noted? = none) (hprogram : i.program? = none) :
    i.effect o nested = i.effect o' nested' := by
  cases i with
  | unassigned byte => rfl
  | assigned op operands =>
    cases op with
    | text | shortText => cases hquoted
    | initPointer | initVariable space | defaultValue => cases hnoted
    | scopeBlock => cases hprogram
    | _ => rfl

end Instruction

namespace Options

variable {o₁ o₂ : Options} {inner : Nat} {i : Instruction}

theorem jumpNote_congr (h : o₁.comments = o₂.comments) (target : UInt32) :
    o₁.jumpNote target = o₂.jumpNote target := by
  unfold jumpNote
  rw [h]

/-- The tokens that an instruction appends under two options where they may differ; a program nested
in it has `inner` levels. -/
inductive Differ (o₁ o₂ : Options) (inner : Nat) (i : Instruction) : Token → Token → Prop
  | quoted {s : String} (h : i.quoted? = some s)
      (hoptions : o₁.formattedStrings ≠ o₂.formattedStrings) :
      Differ o₁ o₂ inner i (.value (Quoted.literal o₁.formattedStrings s) none)
        (.value (Quoted.literal o₂.formattedStrings s) none)
  | noted {head : String} {target : UInt32} (h : i.noted? = some (head, target))
      (hoptions : o₁.comments ≠ o₂.comments) :
      Differ o₁ o₂ inner i (.operator (head ++ o₁.jumpNote target) none)
        (.operator (head ++ o₂.jumpNote target) none)
  | nested {program : List UInt8} {text₁ text₂ : String} (h : i.program? = some program)
      (h₁ : decompileWithin o₁ inner program = some text₁)
      (h₂ : decompileWithin o₂ inner program = some text₂) :
      Differ o₁ o₂ inner i (.value ("(" ++ text₁ ++ ")") none) (.value ("(" ++ text₂ ++ ")") none)

theorem Differ.shape_eq {a b : Token} (h : Differ o₁ o₂ inner i a b) : b.shape = a.shape := by
  cases h <;> simp only [Token.shape]

/-- The program that an instruction carries panics under both options or under none. -/
def PanicAlike (o₁ o₂ : Options) (inner : Nat) (i : Instruction) : Prop :=
  ∀ program, i.program? = some program →
    (decompileWithin o₂ inner program = none ↔ decompileWithin o₁ inner program = none)

/-- Under two options an instruction does the same, or appends tokens that may differ. -/
theorem effect_eq_or_differ (hpanics : PanicAlike o₁ o₂ inner i) :
    i.effect o₂ (decompileWithin o₂ inner) = i.effect o₁ (decompileWithin o₁ inner) ∨
      ∃ a b counts, Differ o₁ o₂ inner i a b ∧
        i.effect o₁ (decompileWithin o₁ inner) = .append a counts ∧
        i.effect o₂ (decompileWithin o₂ inner) = .append b counts := by
  cases hquoted : i.quoted? with
  | some s =>
    have h := fun o nested => Instruction.effect_of_quoted? o nested hquoted
    by_cases hoptions : o₁.formattedStrings = o₂.formattedStrings
    · left
      rw [h, h, hoptions]
    · exact .inr ⟨_, _, _, .quoted hquoted hoptions, h _ _, h _ _⟩
  | none =>
    cases hnoted : i.noted? with
    | some note =>
      have h := fun o nested => Instruction.effect_of_noted? o nested hnoted
      by_cases hoptions : o₁.comments = o₂.comments
      · left
        rw [h, h, jumpNote_congr hoptions]
      · exact .inr ⟨_, _, _, .noted hnoted hoptions, h _ _, h _ _⟩
    | none =>
      cases hprogram : i.program? with
      | some program =>
        rw [Instruction.effect_of_program? _ _ hprogram,
          Instruction.effect_of_program? _ _ hprogram]
        cases h₁ : decompileWithin o₁ inner program with
        | none =>
          rw [(hpanics program hprogram).2 h₁]
          exact .inl rfl
        | some text₁ =>
          cases h₂ : decompileWithin o₂ inner program with
          | none =>
            rw [(hpanics program hprogram).1 h₂] at h₁
            cases h₁
          | some text₂ => exact .inr ⟨_, _, _, .nested hprogram h₁ h₂, rfl, rfl⟩
      | none => exact .inl (Instruction.effect_of_plain _ _ _ _ hquoted hnoted hprogram)

theorem shape_effect (hpanics : PanicAlike o₁ o₂ inner i) :
    (i.effect o₂ (decompileWithin o₂ inner)).shape =
      (i.effect o₁ (decompileWithin o₁ inner)).shape := by
  rcases effect_eq_or_differ hpanics with heq | ⟨a, b, counts, hdiffer, h₁, h₂⟩
  · rw [heq]
  · rw [h₁, h₂, Effect.shape, Effect.shape, hdiffer.shape_eq]

/-- Each token under the second options is the one under the first, or both were appended by an
instruction that writes something that options decide. -/
theorem token_effect (hpanics : PanicAlike o₁ o₂ inner i) {size : Nat} {a b : Token}
    (ha : (i.effect o₁ (decompileWithin o₁ inner)).token? size = some a)
    (hb : (i.effect o₂ (decompileWithin o₂ inner)).token? size = some b) :
    b = a ∨ Differ o₁ o₂ inner i a b := by
  rcases effect_eq_or_differ hpanics with heq | ⟨a', b', counts, hdiffer, h₁, h₂⟩
  · rw [heq, ha] at hb
    exact .inl (Option.some.inj hb).symm
  · rw [h₁] at ha
    rw [h₂] at hb
    cases ha
    cases hb
    exact .inr hdiffer

end Options

/-! ## Runs -/

/-- Tokens at a place in a scope that an instruction of the program appends there under two
options. -/
def Options.DifferAt (o₁ o₂ : Options) (levels : Nat) (body : List UInt8) (id place : Nat)
    (a b : Token) : Prop :=
  ∃ m s' c', (o₁.context levels).Steps .initial (.ofBytes body) m.state m.start ∧
    (o₁.context levels).Takes m s' c' ∧ m.state.current = id ∧
    (m.state.tree.tokens id).size = place ∧
    o₁.Differ o₂ (levels - m.state.depth - 1) m.instruction a b

namespace DecodeContext

/-- The states that a decoder goes through under one of two options, each with the one that it is in
under the other. -/
def SameShape (o₁ o₂ : Options) (levels : Nat) (body : List UInt8) (s : DecoderState) (c : Cursor)
    (t : DecoderState) : Prop :=
  (o₁.context levels).Steps .initial (.ofBytes body) s c ∧ t.shape = s.shape ∧
    ∀ id place a b, s.tree.tokenAt id place = some a → t.tree.tokenAt id place = some b →
      b = a ∨ o₁.DifferAt o₂ levels body id place a b

theorem sameShape_initial (o₁ o₂ : Options) (levels : Nat) (body : List UInt8) :
    SameShape o₁ o₂ levels body .initial (.ofBytes body) .initial :=
  ⟨.refl _ _, rfl, fun _ _ _ _ ha hb => .inl (Option.some.inj (hb.symm.trans ha))⟩

theorem lockstep_of_panicAlike {o₁ o₂ : Options} {levels : Nat}
    (hpanics : ∀ inner program, inner < levels →
      (decompileWithin o₂ inner program = none ↔ decompileWithin o₁ inner program = none))
    (body : List UInt8) :
    Lockstep (o₁.context levels) (o₂.context levels) (SameShape o₁ o₂ levels body) := by
  have halike : ∀ {s c i}, (o₁.context levels).Meets s c i →
      o₁.PanicAlike o₂ (levels - s.depth - 1) i := by
    intro s c i hmeets program hprogram
    have hroom : s.depth < levels := hmeets.room (Instruction.nests_of_program? hprogram)
    exact hpanics _ program (by omega)
  have hdepth : ∀ {s t : DecoderState}, t.shape = s.shape → t.depth = s.depth :=
    fun hshape => congrArg List.length (DecoderState.openScopes_eq_of_shape hshape)
  refine ⟨?_, ?_, ?_, ?_⟩
  · rintro s c t ⟨-, hshape, -⟩
    rw [hdepth hshape]
    rfl
  · rintro s c t ⟨-, hshape, -⟩
    rw [DecoderState.openScopes_eq_of_shape hshape]
  · rintro s c t i ⟨-, hshape, -⟩ hmeets
    have hroom : i.nests = true → s.depth < levels := hmeets.room
    rw [hdepth hshape, o₁.effect_context hroom, o₂.effect_context hroom,
      ← Effect.shape_eq_panics_iff, Options.shape_effect (halike hmeets),
      Effect.shape_eq_panics_iff]
  · -- both apply an effect of one shape to the same scope, so a token that differs is a new one
    rintro s c t i s' c' ⟨hsteps, hshape, htokens⟩ htakes
    have hcurrent : t.current = s.current := DecoderState.current_eq_of_shape hshape
    have hsize : t.tree.size = s.tree.size := DecoderState.size_eq_of_shape hshape
    have hlast : (t.tree.tokens s.current).size = (s.tree.tokens s.current).size :=
      DecoderState.size_tokens_eq_of_shape hshape s.current
    have hs : s.current < s.tree.size := current_lt_size hsteps
    have hroom : i.nests = true → s.depth < levels := htakes.room
    have heffect₁ := o₁.effect_context hroom
    have heffect₂ := o₂.effect_context hroom
    rw [hdepth hshape, heffect₂, htakes.state_eq, heffect₁]
    refine ⟨?_, ?_, ?_⟩
    · have hnext := hsteps.concat htakes.step
      rw [htakes.state_eq, heffect₁] at hnext
      exact hnext
    · rw [DecoderState.shape_apply, DecoderState.shape_apply, hshape,
        Options.shape_effect (halike htakes.meets)]
    · intro id place a b ha hb
      rw [DecoderState.tokenAt_apply hs] at ha
      rw [DecoderState.tokenAt_apply (by omega), hcurrent, hlast, hsize] at hb
      by_cases hnew : id = s.current ∧ place = (s.tree.tokens s.current).size
      · rw [if_pos hnew] at ha hb
        obtain ⟨rfl, rfl⟩ := hnew
        refine (Options.token_effect (halike htakes.meets) ha hb).imp_right fun hdiffer => ?_
        exact ⟨_, _, _, hsteps, htakes, rfl, rfl, hdiffer⟩
      · rw [if_neg hnew] at ha hb
        exact htokens id place a b ha hb

end DecodeContext

/-- Options do not decide whether a program panics. -/
theorem panicAlike_decompileWithin (o₁ o₂ : Options) (levels : Nat) (body : List UInt8) :
    decompileWithin o₂ levels body = none ↔ decompileWithin o₁ levels body = none := by
  induction levels using Nat.strongRecOn generalizing body with
  | ind levels ih =>
    obtain ⟨c', -, herror⟩ :=
      (DecodeContext.lockstep_of_panicAlike (fun inner program hlt => ih inner hlt program)
        body).run_here (DecodeContext.sameShape_initial o₁ o₂ levels body)
    rw [decompileWithin_eq_none_iff, decompileWithin_eq_none_iff, DecodeContext.decode_of_run rfl,
      DecodeContext.decode_of_run rfl, herror]

theorem DecodeContext.lockstep_options (o₁ o₂ : Options) (levels : Nat) (body : List UInt8) :
    Lockstep (o₁.context levels) (o₂.context levels) (SameShape o₁ o₂ levels body) :=
  lockstep_of_panicAlike (fun inner program _ => panicAlike_decompileWithin o₁ o₂ inner program)
    body

/-- Under any two options, a program is decoded into trees that are the same but for texts, and ends
with the same error.  Texts differ only where an instruction writes a text literal, a note or a
nested program, and for the first two only if the options differ in how these are written. -/
theorem decode_options (o₁ o₂ : Options) (levels : Nat) (body : List UInt8) :
    let first := (o₁.context levels).decode body
    let second := (o₂.context levels).decode body
    second.error = first.error ∧ second.tree.shape = first.tree.shape ∧
      ∀ id place a b, first.tree.tokenAt id place = some a →
        second.tree.tokenAt id place = some b →
        b = a ∨ o₁.DifferAt o₂ levels body id place a b := by
  obtain ⟨c', ⟨-, hshape, htokens⟩, herror⟩ :=
    (DecodeContext.lockstep_options o₁ o₂ levels body).run_here
      (DecodeContext.sameShape_initial o₁ o₂ levels body)
  exact ⟨herror, congrArg DecoderState.tree hshape, htokens⟩

end Dxb
