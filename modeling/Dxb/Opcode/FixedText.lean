/-!
# Opcodes without operands that print a fixed text

`Word` holds the operators and keywords, `Constant` the plain values, `StdType` the references to
standard types and `Slot` the internal slots.  Each family is a table of the byte on the wire, the
mnemonic, and the text.
-/

namespace Dxb

/-- What an opcode with a fixed text looks like. -/
structure OpcodeRow where
  byte : UInt8
  mnemonic : String
  text : String

/-- Operators and keywords. -/
inductive Word where
  | exit | closeAndStore | returns | template | extending | implementing | matching | debugger
  | count | about | new | delete | copy | deepCopy | originOf | subscribersOf | plainScope
  | always | observe | run | await | defer | function | assert | iterator | next | freeze
  | sealing | has | keys | typeOf | fetch | doing | collapse | response | cloneCollapse
  | equalValue | notEqualValue | equal | notEqual | greater | less | greaterEqual | lessEqual
  | and | or | add | subtract | multiply | divide | not | modulo | power | increment | decrement
  | createPointer | childGet | childGetRef | keyPermission | sync | stopSync | stream
  | stopStream | extend | yeet | remote | syncSilent
deriving DecidableEq, Repr

namespace Word

def all : List Word := [
    .exit, .closeAndStore, .returns, .template, .extending, .implementing, .matching, .debugger,
    .count, .about, .new, .delete, .copy, .deepCopy, .originOf, .subscribersOf, .plainScope,
    .always, .observe, .run, .await, .defer, .function, .assert, .iterator, .next, .freeze,
    .sealing, .has, .keys, .typeOf, .fetch, .doing, .collapse, .response, .cloneCollapse,
    .equalValue, .notEqualValue, .equal, .notEqual, .greater, .less, .greaterEqual, .lessEqual,
    .and, .or, .add, .subtract, .multiply, .divide, .not, .modulo, .power, .increment,
    .decrement, .createPointer, .childGet, .childGetRef, .keyPermission, .sync, .stopSync,
    .stream, .stopStream, .extend, .yeet, .remote, .syncSilent]

def row : Word → OpcodeRow
  | exit => ⟨0x00, "Exit", "exit"⟩
  | closeAndStore => ⟨0x01, "CloseAndStore", ";\n"⟩
  | returns => ⟨0x50, "Return", "return"⟩
  | template => ⟨0x51, "Template", "template "⟩
  | extending => ⟨0x52, "Extends", " extends "⟩
  | implementing => ⟨0x53, "Implements", " implements "⟩
  | matching => ⟨0x54, "Matches", " matches "⟩
  | debugger => ⟨0x55, "Debugger", "debugger"⟩
  | count => ⟨0x59, "Count", "count "⟩
  | about => ⟨0x5a, "About", "about "⟩
  | new => ⟨0x5b, "New", "new "⟩
  | delete => ⟨0x5c, "DeletePointer", "delete "⟩
  | copy => ⟨0x5f, "Copy", "copy "⟩
  | deepCopy => ⟨0x60, "Clone", "deepcopy "⟩
  | originOf => ⟨0x61, "Origin", "origin "⟩
  | subscribersOf => ⟨0x62, "Subscribers", "subscribers "⟩
  | plainScope => ⟨0x63, "PlainScope", "scope "⟩
  | always => ⟨0x65, "Transform", "always "⟩
  | observe => ⟨0x66, "Observe", "observe "⟩
  | run => ⟨0x67, "Run", "run "⟩
  | await => ⟨0x68, "Await", "await "⟩
  | defer => ⟨0x69, "Defer", "defer "⟩
  | function => ⟨0x6a, "Function", "function "⟩
  | assert => ⟨0x6b, "Assert", "assert "⟩
  | iterator => ⟨0x6c, "Iterator", "iterator "⟩
  | next => ⟨0x6d, "Next", "next "⟩
  | freeze => ⟨0x6e, "Freeze", "freeze "⟩
  | sealing => ⟨0x6f, "Seal", "seal "⟩
  | has => ⟨0x70, "Has", " has "⟩
  | keys => ⟨0x71, "Keys", "keys "⟩
  | typeOf => ⟨0x72, "GetType", "type "⟩
  | fetch => ⟨0x73, "Get", "get "⟩
  | doing => ⟨0x76, "Do", "do "⟩
  | collapse => ⟨0x78, "Collapse", "collapse "⟩
  | response => ⟨0x79, "Response", "response "⟩
  | cloneCollapse => ⟨0x88, "CloneCollapse", "clone_collapse "⟩
  | equalValue => ⟨0x80, "EqualValue", "=="⟩
  | notEqualValue => ⟨0x81, "NotEqualValue", "!="⟩
  | equal => ⟨0x82, "Equal", "==="⟩
  | notEqual => ⟨0x83, "NotEqual", "!=="⟩
  | greater => ⟨0x84, "Greater", ">"⟩
  | less => ⟨0x85, "Less", "<"⟩
  | greaterEqual => ⟨0x86, "GreaterEqual", ">="⟩
  | lessEqual => ⟨0x87, "LessEqual", "<="⟩
  | and => ⟨0x90, "And", " and "⟩
  | or => ⟨0x91, "Or", " or "⟩
  | add => ⟨0x92, "Add", " + "⟩
  | subtract => ⟨0x93, "Subtract", " - "⟩
  | multiply => ⟨0x94, "Multiply", " * "⟩
  | divide => ⟨0x95, "Divide", " / "⟩
  | not => ⟨0x96, "Not", "not "⟩
  | modulo => ⟨0x97, "Modulo", " % "⟩
  | power => ⟨0x98, "Power", " ^ "⟩
  | increment => ⟨0x99, "Increment", "++"⟩
  | decrement => ⟨0x9a, "Decrement", "--"⟩
  | createPointer => ⟨0xb1, "CreatePointer", "$$"⟩
  | childGet => ⟨0xb2, "ChildGet", "."⟩
  | childGetRef => ⟨0xb6, "ChildGetRef", "->"⟩
  | keyPermission => ⟨0xe9, "KeyPermission", "!!"⟩
  | sync => ⟨0xf0, "Sync", " <== "⟩
  | stopSync => ⟨0xf1, "StopSync", " </= "⟩
  | stream => ⟨0xf2, "Stream", " << "⟩
  | stopStream => ⟨0xf3, "StopStream", " </ "⟩
  | extend => ⟨0xf4, "Extend", "..."⟩
  | yeet => ⟨0xf5, "Yeet", "yeet "⟩
  | remote => ⟨0xf6, "Remote", " :: "⟩
  | syncSilent => ⟨0xf7, "SyncSilent", " <==: "⟩

end Word

/-- Values that are always the same. -/
inductive Constant where
  | yes | no | null | void
deriving DecidableEq, Repr

namespace Constant

def all : List Constant := [.yes, .no, .null, .void]

def row : Constant → OpcodeRow
  | yes => ⟨0xc6, "True", "true"⟩
  | no => ⟨0xc7, "False", "false"⟩
  | null => ⟨0xc8, "Null", "null"⟩
  | void => ⟨0xc9, "Void", "void"⟩

end Constant

/-- Standard types that have an opcode of their own. -/
inductive StdType where
  | text | int | float | boolean | null | void | buffer | codeBlock | unit | time | url | array
  | object | set | map | tuple | function | stream | any | assertion | task | iterator
deriving DecidableEq, Repr

namespace StdType

def all : List StdType := [
    .text, .int, .float, .boolean, .null, .void, .buffer, .codeBlock, .unit, .time, .url, .array,
    .object, .set, .map, .tuple, .function, .stream, .any, .assertion, .task, .iterator]

def row : StdType → OpcodeRow
  | text => ⟨0x10, "StdTypeText", "<text>"⟩
  | int => ⟨0x11, "StdTypeInt", "<integer>"⟩
  | float => ⟨0x12, "StdTypeFloat", "<decimal>"⟩
  | boolean => ⟨0x13, "StdTypeBoolean", "<boolean>"⟩
  | null => ⟨0x14, "StdTypeNull", "<null>"⟩
  | void => ⟨0x15, "StdTypeVoid", "<void>"⟩
  | buffer => ⟨0x16, "StdTypeBuffer", "<buffer>"⟩
  | codeBlock => ⟨0x17, "StdTypeCodeBlock", "<Scope>"⟩
  | unit => ⟨0x18, "StdTypeUnit", "<quantity>"⟩
  | time => ⟨0x19, "StdTypeTime", "<time>"⟩
  | url => ⟨0x1a, "StdTypeUrl", "<url>"⟩
  | array => ⟨0x1b, "StdTypeArray", "<Array>"⟩
  | object => ⟨0x1c, "StdTypeObject", "<Object>"⟩
  | set => ⟨0x1d, "StdTypeSet", "<Set>"⟩
  | map => ⟨0x1e, "StdTypeMap", "<Map>"⟩
  | tuple => ⟨0x1f, "StdTypeTuple", "<Tuple>"⟩
  | function => ⟨0x20, "StdTypeFunction", "<Function>"⟩
  | stream => ⟨0x21, "StdTypeStream", "<Stream>"⟩
  | any => ⟨0x22, "StdTypeAny", "<Any>"⟩
  | assertion => ⟨0x23, "StdTypeAssertion", "<Assertion>"⟩
  | task => ⟨0x24, "StdTypeTask", "<Task>"⟩
  | iterator => ⟨0x25, "StdTypeIterator", "<Iterator>"⟩

end StdType

/-- Internal slots that a program can assign to. -/
inductive LocalSlot where
  | result | subResult | void | originInternal | it
deriving DecidableEq, Repr

/-- Internal slots that a program can read. -/
inductive Slot where
  | assignable (s : LocalSlot)
  | remote | origin | endpoint | entrypoint | std | metadata | publics | this | location | env
deriving DecidableEq, Repr

namespace LocalSlot

def all : List LocalSlot := [.result, .subResult, .void, .originInternal, .it]

/-- The row for reading the slot; the three bytes after it assign, assign a reference and act. -/
def row : LocalSlot → OpcodeRow
  | result => ⟨0x30, "VarResult", "#result"⟩
  | subResult => ⟨0x34, "VarSubResult", "#sub_result"⟩
  | void => ⟨0x38, "VarVoid", "#void"⟩
  | originInternal => ⟨0x3c, "VarOriginInternal", "#_origin"⟩
  | it => ⟨0x40, "VarIt", "#it"⟩

end LocalSlot

namespace Slot

def all : List Slot :=
  LocalSlot.all.map assignable ++
    [.remote, .origin, .endpoint, .entrypoint, .std, .metadata, .publics, .this, .location, .env]

def row : Slot → OpcodeRow
  | assignable s => s.row
  | remote => ⟨0x44, "VarRemote", "#remote"⟩
  | origin => ⟨0x46, "VarOrigin", "#origin"⟩
  | endpoint => ⟨0x47, "VarEndpoint", "#endpoint"⟩
  | entrypoint => ⟨0x48, "VarEntrypoint", "#entrypoint"⟩
  | std => ⟨0x49, "VarStd", "#std"⟩
  | metadata => ⟨0x4b, "VarMeta", "#meta"⟩
  | publics => ⟨0x4c, "VarPublic", "#public"⟩
  | this => ⟨0x4d, "VarThis", "#this"⟩
  | location => ⟨0x4e, "VarLocation", "#location"⟩
  | env => ⟨0x4f, "VarEnv", "#env"⟩

end Slot

end Dxb
