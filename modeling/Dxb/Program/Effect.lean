import Dxb.Program.Literal
import Dxb.Program.Token

/-!
# What an instruction does to a token tree

`Instruction.effect` says it for every opcode.  The effect depends on the instruction alone, on the
options, and for a nested program on how programs are decompiled one level further in; it does not
depend on the scopes that are open.  What has no text to be written panics.
-/

namespace Dxb

structure Options where
  /-- Write notes that mean nothing to the program. -/
  comments : Bool := true
  /-- Indent scopes of more than one line. -/
  formatted : Bool := false
  /-- Let line feeds in text literals stand for themselves. -/
  formattedStrings : Bool := false
  /-- A header stands before the body. -/
  hasHeader : Bool := true
deriving DecidableEq, Repr

inductive Effect where
  | nothing
  /-- Append a token to the current scope; if it counts, it completes a member of a connective. -/
  | append (token : Token) (counts : Bool)
  /-- Open a scope, for a connective with the number of its members. -/
  | opens (kind : ScopeKind) (members : Option Nat)
  /-- Close the current scope. -/
  | closes
  /-- There is no text to append, and the attempt to write it panics. -/
  | panics
deriving DecidableEq, Repr

namespace Effect

/-- A value, which counts as a member. -/
def value (text : String) : Effect := append (.value text none) true

/-- A value that does not count as a member. -/
def aside (text : String) : Effect := append (.value text none) false

def operator (text : String) : Effect := append (.operator text none) false

/-- An operator that leaves a fragment to be written after the next token. -/
def deferring (text : String) (fragment : Deferred) : Effect :=
  append (.operator text (some fragment)) false

def separator (text : String) : Effect := append (.separator text) false

/-- A value in whose place an error is reported. -/
def valueError (message : String) : Effect := value ("/* ERROR: " ++ message ++ " */")

/-- A value that has a text unless writing it panics. -/
def written : Option String → Effect
  | some text => value text
  | none => panics

end Effect

/-- The note where an initialiser ends, which only comments show. -/
def Options.jumpNote (o : Options) (target : UInt32) : String :=
  if o.comments then s!" /*jmp:{target.toNat}*/" else ""

/-- The key of an element between quotes.  Only single quotes in it are escaped. -/
def keyText (key : String) : String :=
  "\"" ++ String.ofList (key.toList.flatMap fun c => if c = '\'' then ['\\', '\''] else [c]) ++
    "\": "

open Effect in
/-- The effect of an opcode with its operands; `nested` decompiles a nested program, unless that
panics. -/
def Opcode.effect (o : Options) (nested : List UInt8 → Option String) :
    (op : Opcode) → Operands op.operands → Effect
  | .word w, _ => operator w.row.text
  | .constant c, _ => value c.row.text
  | .stdType t, _ => value t.row.text
  | .slot s, _ => value s.row.text
  | .setSlot s, _ => operator (s.row.text ++ " = ")
  | .setSlotReference s, _ => operator (s.row.text ++ " $= ")
  | .slotAction s, (sign, _) => operator (s.row.text ++ " " ++ Opcode.actionSign sign ++ "= ")
  | .remoteAction, (sign, _) =>
    operator (Slot.remote.row.text ++ " " ++ Opcode.actionSign sign ++ "= ")
  | .opening b, _ => opens (.bracket b) none
  | .closing _, _ => closes
  | .connective c, (count, _) => opens (.connective c) (some count.toNat)
  | .cachePoint, _ => nothing
  | .cacheReset, _ => nothing
  | .text, (s, _) => value (Quoted.literal o.formattedStrings s)
  | .shortText, (s, _) => value (Quoted.literal o.formattedStrings s)
  | .url, (s, _) => value s
  | .relativePath, (s, _) => aside s
  | .buffer, (bytes, _) => value (Literal.buffer bytes)
  | .int8, (n, _) => value (toString n.toInt)
  | .int16, (n, _) => value (toString n.toInt)
  | .int32, (n, _) => value (toString n.toInt)
  | .int64, (n, _) => value (toString n.toInt)
  | .float64, (bits, _) => value (Literal.float bits)
  | .floatAsInt8, (n, _) => value (Literal.whole n.toInt)
  | .floatAsInt32, (n, _) => value (Literal.whole n.toInt)
  | .wildcard, _ => aside "*"
  | .time, (millis, _) =>
    match Literal.time? millis.toNat with
    | some written => value written
    | none => valueError s!"time {millis.toNat} out of range"
  | .quantity, (record, _) =>
    match record.quantity? with
    | .ok q => written q.text?
    | .error e => valueError e.message
  | .typeName, (t, _) => value (Literal.typeName t)
  | .extendedType, (t, _) =>
    append (.value (Literal.typeName t) (if t.parameters then some .closeType else none)) true
  | .scopeBlock, (body, _) => written ((nested body).map fun text => "(" ++ text ++ ")")
  | .endpoint kind _, (record, _) =>
    match record.endpoint? kind with
    | .ok e => value e.canonical
    | .error e => valueError e.message
  | .pointer, (id, _) => value (Literal.pointer id)
  | .setPointer, (id, _) => operator (Literal.pointer id ++ "=")
  | .initPointer, (id, target, _) => operator (Literal.pointer id ++ " :=" ++ o.jumpNote target)
  | .pointerAction, (sign, id, _) =>
    operator (Literal.pointer id ++ " " ++ Opcode.actionSign sign ++ "= ")
  | .readVariable space, (name, _) => value (Literal.variableName (Literal.sigil space) name)
  | .setVariable space, (name, _) =>
    operator (Literal.variableName (Literal.sigil space) name ++ " = ")
  | .initVariable space, (name, target, _) =>
    operator (Literal.variableName (Literal.sigil space) name ++ " :=" ++ o.jumpNote target)
  | .variableAction space, (sign, name, _) =>
    operator (Literal.variableName (Literal.sigil space) name ++ " " ++ Opcode.actionSign sign ++
      "= ")
  | .setInternalReference, (name, _) =>
    operator (Literal.variableName (Literal.sigil .internal) name ++ " $= ")
  | .childSet, _ => deferring "." .assign
  | .childSetReference, _ => deferring "." .assignReference
  | .childAction, (sign, _) => deferring "." (.action (Opcode.actionSign sign))
  | .range, _ => deferring "" .range
  | .jump, (target, _) => operator ("jmp " ++ Literal.hex target.toNat)
  | .jumpIfTrue, (target, _) => operator ("jtr " ++ Literal.hex target.toNat ++ " ")
  | .jumpIfFalse, (target, _) => operator ("jfa " ++ Literal.hex target.toNat ++ " ")
  | .defaultValue, (target, _) => operator (" default" ++ o.jumpNote target)
  | .elementWithKey, (key, _) => separator (keyText key)
  | .elementWithIntKey, (key, _) => separator s!"{key.toNat}: "
  | .elementWithDynamicKey, _ => separator ": "
  | .objectSlot, (key, _) => separator (Literal.objectSlot key ++ ": ")
  | .element, _ => separator ""

/-- The effect of an instruction; a byte that no opcode has leaves a note of itself. -/
def Instruction.effect (o : Options) (nested : List UInt8 → Option String) : Instruction → Effect
  | .unassigned byte => .operator ("/*" ++ Literal.hex byte.toNat ++ "*/")
  | .assigned op operands => op.effect o nested operands

end Dxb
