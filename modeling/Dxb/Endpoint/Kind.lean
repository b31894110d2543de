/-!
# The kinds of endpoint

Each kind is written with its own sigil; where two sigils begin a text, the longer one counts.

    split? (k.sigil ++ text) = some (k, text), unless k is a person and the text begins with @ or +
-/

namespace Dxb

inductive EndpointKind where
  | person | institution | id | bot
deriving DecidableEq, Repr

namespace EndpointKind

def all : List EndpointKind := [.person, .institution, .id, .bot]

def sigil : EndpointKind → String
  | person => "@"
  | institution => "@+"
  | id => "@@"
  | bot => "*"

def label : EndpointKind → String
  | person => "Person"
  | institution => "Institution"
  | id => "Id"
  | bot => "Bot"

/-- Splits off the sigil in front of a text. -/
def split? (text : String) : Option (EndpointKind × String) :=
  match text.toList with
  | '@' :: '@' :: rest => some (.id, String.ofList rest)
  | '@' :: '+' :: rest => some (.institution, String.ofList rest)
  | '@' :: rest => some (.person, String.ofList rest)
  | '*' :: rest => some (.bot, String.ofList rest)
  | _ => none

end EndpointKind

end Dxb
