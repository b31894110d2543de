import Dxb.Opcode

/-!
# Token trees

A program is read into tokens grouped by scope.  All scopes of a program stand in one array in the
order they were opened, the root first; a `Token.scope` names a scope by its place there, so tokens
can still be appended to a scope while one inside it is open.
-/

namespace Dxb

def Bracket.opener : Bracket → String
  | .subscope | .tuple => "("
  | .array => "["
  | .object => "\x7b"

def Bracket.closer : Bracket → String
  | .subscope | .tuple => ")"
  | .array => "]"
  | .object => "\x7d"

/-- The sign between the members of a connective. -/
def Connective.sign : Connective → String
  | .disjunction => "|"
  | .conjunction => "&"

inductive ScopeKind where
  | root
  | bracket (b : Bracket)
  | connective (c : Connective)
deriving DecidableEq, Repr

namespace ScopeKind

def label : ScopeKind → String
  | root => "root"
  | bracket .subscope => "subscope"
  | bracket .tuple => "tuple"
  | bracket .array => "array"
  | bracket .object => "object"
  | connective .disjunction => "disjunction"
  | connective .conjunction => "conjunction"

/-- What is written around a scope; the root and connectives have no brackets. -/
def brackets? : ScopeKind → Option (String × String)
  | bracket b => some (b.opener, b.closer)
  | _ => none

def sign? : ScopeKind → Option String
  | connective c => some c.sign
  | _ => none

end ScopeKind

/-- The kind of scope that an opcode opens. -/
def Opcode.scope? : Opcode → Option ScopeKind
  | .opening b => some (.bracket b)
  | .connective c => some (.connective c)
  | _ => none

/-- A fragment that is written after the token that follows. -/
inductive Deferred where
  | assign | assignReference | range | closeType
  | action (sign : String)
deriving DecidableEq, Repr

def Deferred.text : Deferred → String
  | assign => " = "
  | assignReference => " $= "
  | range => ".."
  | closeType => ">"
  | action sign => " " ++ sign ++ "= "

inductive Token where
  /-- A literal or a reference. -/
  | value (text : String) (defer : Option Deferred)
  /-- A keyword, an operator or a fragment of a statement. -/
  | operator (text : String) (defer : Option Deferred)
  /-- The start of an element; a comma stands before it. -/
  | separator (text : String)
  | scope (id : Nat)
deriving DecidableEq, Repr

namespace Token

/-- Values and scopes are the members of a connective. -/
def isMember : Token → Bool
  | value .. | scope _ => true
  | _ => false

def isSeparator : Token → Bool
  | separator _ => true
  | _ => false

def defer? : Token → Option Deferred
  | value _ d | operator _ d => d
  | _ => none

end Token

structure Scope where
  kind : ScopeKind
  tokens : Array Token
deriving DecidableEq, Repr

/-- The scopes of a program in the order they were opened, the root first. -/
structure TokenTree where
  scopes : Array Scope
deriving DecidableEq, Repr

namespace TokenTree

def root : Nat := 0

/-- The tree of the empty program. -/
def empty : TokenTree := ⟨#[⟨.root, #[]⟩]⟩

def size (t : TokenTree) : Nat := t.scopes.size

/-- Whether nothing was written into the root. -/
def isEmpty (t : TokenTree) : Bool :=
  match t.scopes[root]? with
  | some s => s.tokens.isEmpty
  | none => true

/-- Appends a token to a scope. -/
def push (t : TokenTree) (id : Nat) (token : Token) : TokenTree :=
  ⟨t.scopes.modify id fun s => { s with tokens := s.tokens.push token }⟩

/-- Appends a new scope, and its token to the scope around it. -/
def openScope (t : TokenTree) (parent : Nat) (kind : ScopeKind) : TokenTree :=
  let id := t.size
  let grown := t.push parent (.scope id)
  ⟨grown.scopes.push ⟨kind, #[]⟩⟩

end TokenTree

end Dxb
