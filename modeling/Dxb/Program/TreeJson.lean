import Dxb.Json.Write
import Dxb.Program.Token

/-!
# Token trees as JSON
-/

namespace Dxb

open JsonValue

def Deferred.json : Deferred → JsonValue
  | assign => ofText "assign"
  | assignReference => ofText "assign_reference"
  | range => ofText "range"
  | closeType => ofText "close_type"
  | action sign => record [("action", ofText sign)]

/-- The members of a token with a text, and what it defers if it does. -/
def Token.textJson (type content : String) (defer : Option Deferred) : JsonValue :=
  record ([("type", ofText type), ("text", ofText content)] ++
    (defer.map fun d => ("defer", d.json)).toList)

def Token.json : Token → JsonValue
  | value content defer => textJson "value" content defer
  | operator content defer => textJson "operator" content defer
  | separator content => textJson "separator" content none
  | scope id => record [("type", ofText "scope"), ("id", ofNat id)]

def Scope.json (s : Scope) : JsonValue :=
  record [("kind", ofText s.kind.label), ("tokens", .array (s.tokens.toList.map Token.json))]

def TokenTree.json (t : TokenTree) : JsonValue :=
  record [("scopes", .array (t.scopes.toList.map Scope.json))]

end Dxb
