import Dxb.Program.Token
import Dxb.Text.Lines

/-!
# Token trees as text

Tokens are written one after the other.  A comma stands before a separator, a deferred fragment
after the token that follows the one which left it, and the members of a connective stand in
parentheses with its sign between them.  A formatted scope of more than one line is indented.
-/

namespace Dxb

/-- How far the writing of a scope has come. -/
structure ScopeText where
  written : String
  /-- A fragment to be written after the next token. -/
  pending : Option Deferred
  /-- Whether the current member of a connective has its value. -/
  hasValue : Bool

namespace ScopeText

/-- Writes a token whose own text is given; `comma` says whether a separator follows it. -/
def write (sign : Option String) (comma : Bool) (t : ScopeText) (token : Token) (text : String) :
    ScopeText :=
  let (join, hasValue) := match sign with
    | none => ("", t.hasValue)
    | some sign =>
      if t.hasValue then (") " ++ sign ++ " (", token.isMember)
      else ("", token.isMember)
  { written := t.written ++ join ++ text ++ (if comma then "," else "") ++
      (t.pending.map Deferred.text).getD ""
    pending := token.defer?
    hasValue }

end ScopeText

/-- Writes the tokens of a scope, where `child` gives the text of a scope inside it. -/
def writeTokens (sign : Option String) (child : Nat → String) (t : ScopeText) :
    List Token → ScopeText
  | [] => t
  | token :: rest =>
    let text := match token with
      | .value text _ | .operator text _ | .separator text => text
      | .scope id => child id
    let comma := match rest with
      | next :: _ => next.isSeparator
      | [] => false
    writeTokens sign child (t.write sign comma token text) rest

/-- The text of a scope without its brackets.  A fragment that no token follows is dropped. -/
def Scope.inner (child : Nat → String) (s : Scope) : String :=
  let written := (writeTokens s.kind.sign? child ⟨"", none, false⟩ s.tokens.toList).written
  if s.kind.sign?.isSome then "(" ++ written ++ ")" else written

/-- Puts brackets around the text of a scope. -/
def ScopeKind.enclose (formatted : Bool) (kind : ScopeKind) (inner : String) : String :=
  match kind.brackets? with
  | none => inner
  | some (opener, closer) =>
    if formatted && inner.contains '\n' then
      let body := String.ofList (Lines.indent (Lines.trimEnd inner.toList))
      opener ++ "\n" ++ body ++ "\n" ++ closer
    else opener ++ inner ++ closer

namespace TokenTree

/-- The text of a scope with its brackets.  Scopes stand behind the one around them. -/
def scopeText (formatted : Bool) (t : TokenTree) (id : Nat) : String :=
  if h : id < t.scopes.size then
    let scope := t.scopes[id]
    scope.kind.enclose formatted
      (scope.inner fun child => if id < child then scopeText formatted t child else "")
  else ""
termination_by t.scopes.size - id

/-- A tree as text. -/
def render (formatted : Bool) (t : TokenTree) : String := t.scopeText formatted root

end TokenTree

end Dxb
