import Dxb.Program.Render
import Dxb.Proofs.Program.Tree

/-!
# Writing tokens one after the other

A token is written in front of the next one, which says whether a comma follows (`ScopeText.put`).
What is pending after some tokens is what the last of them defers (`pending_writeTokens`), and what
was written before them is only added to (`written_writeTokens`).
-/

namespace Dxb

/-- The text of a token; a scope has none of its own. -/
def Token.text : Token → String
  | .value text _ | .operator text _ | .separator text => text
  | .scope _ => ""

/-- Writes a token in front of the next one. -/
def ScopeText.put (sign : Option String) (child : Nat → String) (next : Option Token)
    (t : ScopeText) (token : Token) : ScopeText :=
  t.write sign (next.any Token.isSeparator) token <| match token with
    | .value text _ | .operator text _ | .separator text => text
    | .scope id => child id

variable {sign : Option String} {child : Nat → String}

/-- What a token is written as. -/
theorem ScopeText.put_eq (sign : Option String) (child : Nat → String) (next : Option Token)
    (t : ScopeText) (token : Token) :
    t.put sign child next token = t.write sign (next.any Token.isSeparator) token
      ((token.scope?.map child).getD token.text) := by
  cases token <;> rfl

/-- What is written in front of a token. -/
def ScopeText.joint (sign : Option String) (hasValue : Bool) : String :=
  match sign with
  | none => ""
  | some sign => if hasValue then ") " ++ sign ++ " (" else ""

theorem ScopeText.written_write (sign : Option String) (comma : Bool) (t : ScopeText)
    (token : Token) (text : String) :
    (t.write sign comma token text).written = t.written ++ joint sign t.hasValue ++ text ++
      ((if comma then "," else "") ++ (t.pending.map Deferred.text).getD "") := by
  obtain ⟨written, pending, hasValue⟩ := t
  rw [← String.append_assoc]
  cases sign with
  | none => rfl
  | some sign => cases hasValue <;> rfl

theorem writeTokens_cons (t : ScopeText) (token : Token) (rest : List Token) :
    writeTokens sign child t (token :: rest) =
      writeTokens sign child (t.put sign child rest.head? token) rest := by
  cases rest <;> cases token <;> rfl

/-- Where no comma stands between two parts, they are written one after the other. -/
theorem writeTokens_append (t : ScopeText) (tokens : List Token) {rest : List Token}
    (h : rest.head?.any Token.isSeparator = false) :
    writeTokens sign child t (tokens ++ rest) =
      writeTokens sign child (writeTokens sign child t tokens) rest := by
  induction tokens generalizing t with
  | nil => rfl
  | cons token tokens ih =>
    have hcomma : ((tokens ++ rest).head?).any Token.isSeparator =
        tokens.head?.any Token.isSeparator := by
      cases tokens with
      | nil => exact h
      | cons next tokens => rfl
    rw [List.cons_append, writeTokens_cons, writeTokens_cons, ih]
    unfold ScopeText.put
    rw [hcomma]

/-- What is written is only added to. -/
theorem written_writeTokens (before : String) (t : ScopeText) (tokens : List Token) :
    (writeTokens sign child { t with written := before ++ t.written } tokens).written =
      before ++ (writeTokens sign child t tokens).written := by
  induction tokens generalizing t with
  | nil => rfl
  | cons token rest ih =>
    rw [writeTokens_cons, writeTokens_cons, ← ih]
    simp only [ScopeText.put, ScopeText.write, String.append_assoc]

theorem exists_written (sign : Option String) (child : Nat → String) (t : ScopeText)
    (tokens : List Token) :
    ∃ rest, (writeTokens sign child t tokens).written = t.written ++ rest := by
  have h : (writeTokens sign child { t with written := t.written ++ "" } tokens).written = _ :=
    written_writeTokens t.written { t with written := "" } tokens
  rw [String.append_empty] at h
  exact ⟨_, h⟩

/-- After the last token, what it defers is pending. -/
theorem pending_writeTokens (t : ScopeText) (tokens : List Token) :
    (writeTokens sign child t tokens).pending =
      (tokens.getLast?.map Token.defer?).getD t.pending := by
  induction tokens generalizing t with
  | nil => rfl
  | cons token rest ih =>
    rw [writeTokens_cons, ih]
    cases rest with
    | nil => rfl
    | cons next rest => simp [List.getLast?_cons]

/-- Only a connective looks for values. -/
theorem hasValue_writeTokens (t : ScopeText) (tokens : List Token) :
    (writeTokens none child t tokens).hasValue = t.hasValue := by
  induction tokens generalizing t with
  | nil => rfl
  | cons token rest ih => exact ih _

end Dxb
