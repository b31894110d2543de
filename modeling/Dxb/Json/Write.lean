import Dxb.Bytes.Hex
import Dxb.Json.Value

/-!
# Writing JSON

Every item and member on a line of its own, two spaces a level, and empty arrays and objects in one
piece.  Texts escape quotes, backslashes and control characters, and nothing else.
-/

namespace Dxb.JsonValue

def escape (c : Char) : List Char :=
  match c with
  | '"' => ['\\', '"']
  | '\\' => ['\\', '\\']
  | '\x08' => ['\\', 'b']
  | '\x0C' => ['\\', 'f']
  | '\n' => ['\\', 'n']
  | '\r' => ['\\', 'r']
  | '\t' => ['\\', 't']
  | c =>
    if c.toNat < 0x20 then
      ['\\', 'u', '0', '0', Hex.digit 'a' (c.toNat / 16), Hex.digit 'a' (c.toNat % 16)]
    else [c]

def quoted (s : String) : String :=
  "\"" ++ String.ofList (s.toList.flatMap escape) ++ "\""

/-- A new line at a level. -/
def newline (level : Nat) : String := "\n" ++ String.ofList (List.replicate (2 * level) ' ')

/-- Lines between two brackets that stand at a level. -/
def bracketed (opening closing : String) (level : Nat) (lines : List String) : String :=
  if lines.isEmpty then opening ++ closing
  else
    opening ++ newline (level + 1) ++ String.intercalate ("," ++ newline (level + 1)) lines ++
      newline level ++ closing

mutual

/-- A value in a line that starts at a level. -/
def prettyAt (level : Nat) : JsonValue → String
  | .null => "null"
  | .bool b => if b then "true" else "false"
  | .number numeral => numeral
  | .text s => quoted (s.getD "")
  | .array items => bracketed "[" "]" level (prettyItems (level + 1) items)
  | .object members => bracketed "\x7b" "\x7d" level (prettyMembers (level + 1) members)

def prettyItems (level : Nat) : List JsonValue → List String
  | [] => []
  | v :: items => prettyAt level v :: prettyItems level items

def prettyMembers (level : Nat) : List (Option String × JsonValue) → List String
  | [] => []
  | (key, v) :: members =>
    (quoted (key.getD "") ++ ": " ++ prettyAt level v) :: prettyMembers level members

end

def pretty (v : JsonValue) : String := prettyAt 0 v

end Dxb.JsonValue
