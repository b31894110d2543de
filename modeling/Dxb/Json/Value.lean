/-!
# JSON values

Numbers stay as they are written.  A text may spell half of a surrogate pair, and then it is no text
that could be used anywhere; `none` stands for it.
-/

namespace Dxb

inductive JsonValue where
  | null
  | bool (b : Bool)
  | number (numeral : String)
  | text (s : Option String)
  | array (items : List JsonValue)
  | object (members : List (Option String × JsonValue))

namespace JsonValue

def ofText (s : String) : JsonValue := text (some s)

def ofNat (n : Nat) : JsonValue := number (toString n)

/-- An object of members that all have a key. -/
def record (members : List (String × JsonValue)) : JsonValue :=
  object (members.map fun (key, v) => (some key, v))

end JsonValue

end Dxb
