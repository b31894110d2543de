import Dxb.CommandLine.Command
import Dxb.Config
import Dxb.Endpoint.Record
import Dxb.Program.Decompile
import Dxb.Program.TreeJson

/-!
# Running a command

A command is a function of its arguments, of the standard input and of the files it reads.  The
configuration is read first, and a command that fails writes one line about the reason and nothing
else.  A command that panics writes nothing of its own.
-/

namespace Dxb.CommandLine

/-- What a command can read. -/
structure Surroundings where
  input : List UInt8
  /-- The bytes of a file, if it can be read. -/
  file? : String → Option (List UInt8)

/-- What a command leaves behind. -/
structure Report where
  exit : UInt8
  output : String
  /-- What it says of failures. -/
  complaint : String
deriving DecidableEq, Repr

/-- Why a command fails. -/
inductive Failure where
  | configuration (path : String) (fault : ConfigurationFault)
  | unreadable (path : String)
  | malformedHex
  | base64NotText
  | malformedBase64
  /-- So many bytes stand behind a quantity. -/
  | trailing (bytes : Nat)
  | endpoint (e : EndpointError)
  | decode (e : DecodeError)
  | quantity (e : QuantityError)
deriving DecidableEq, Repr

def Failure.message : Failure → String
  | configuration path .unreadable => "failed to read config " ++ path
  | configuration path .malformed => "failed to parse config " ++ path
  | unreadable path => "failed to read " ++ path
  | malformedHex => "invalid hex input"
  | base64NotText => "base64 input is not UTF-8"
  | malformedBase64 => "invalid base64 input"
  | trailing bytes => s!"{bytes} trailing byte(s) after quantity"
  | endpoint e => e.message
  | decode e => e.message
  | quantity e => e.message

def complaintLine (message : String) : String := "error: " ++ message ++ "\n"

namespace Report

/-- One line of output. -/
def line (text : String) : Report := ⟨0, text ++ "\n", ""⟩

def ofFailure (f : Failure) : Report := ⟨1, "", complaintLine f.message⟩

/-- What is left after a panic. -/
def panicked : Report := ⟨101, "", ""⟩

/-- One line of output, if there is a text for it. -/
def ofText : Option String → Report
  | some text => line text
  | none => panicked

def ofStop : Stop → Report
  | .usage => ⟨2, "", ""⟩
  | .version => line "datex 0.1.0"
  | .help => ⟨0, "", ""⟩

end Report

/-- The bytes that hex digits spell, whatever blanks stand between them. -/
def readHex (text : String) : Except Failure (List UInt8) :=
  match Hex.decode? (String.ofList (Blank.remove text.toList)) with
  | some bytes => .ok bytes
  | none => .error .malformedHex

/-- The bytes that base64 spells, maybe between blanks. -/
def readBase64 (text : String) : Except Failure (List UInt8) :=
  match Base64.decode? (String.ofList (Blank.trim text.toList)) with
  | some bytes => .ok bytes
  | none => .error .malformedBase64

namespace DecompileCommand

/-- The options of a decompilation: flags add to what the configuration asks for. -/
def options (c : DecompileCommand) (defaults : Options) : Options where
  comments := defaults.comments && !c.noComments
  formatted := defaults.formatted || c.formatted
  formattedStrings := defaults.formattedStrings || c.formattedStrings
  hasHeader := defaults.hasHeader && !c.noHeader

def readInput (c : DecompileCommand) (s : Surroundings) : Except Failure (List UInt8) :=
  if c.input = "-" then .ok s.input
  else
    match s.file? c.input with
    | some bytes => .ok bytes
    | none => .error (.unreadable c.input)

/-- The message that an input holds. -/
def message (c : DecompileCommand) (input : List UInt8) : Except Failure (List UInt8) :=
  if c.hex then
    match ofUtf8? input with
    | some text => readHex text
    | none => .error .malformedHex
  else if c.base64 then
    match ofUtf8? input with
    | some text => readBase64 text
    | none => .error .malformedBase64
  else .ok input

/-- The token tree, and outside of it the error that ended it. -/
def treeReport (d : Decoded) : Report :=
  match d.error with
  | none => .line d.tree.json.pretty
  | some (.fault e) => { Report.line d.tree.json.pretty with complaint := complaintLine e.message }
  | some .panic => .panicked

def run (c : DecompileCommand) (defaults : Options) (s : Surroundings) : Except Failure Report := do
  let input ← c.readInput s
  let o := c.options defaults
  if c.tokens then return treeReport (decodeMessage o (← c.message input))
  else if c.base64 then
    match ofUtf8? input with
    | some text => return .ofText (decompileBase64 o.formatted o.hasHeader text)
    | none => .error .base64NotText
  else return .ofText (decompile o (← c.message input))

end DecompileCommand

def endpointOf (text : String) : Except Failure Endpoint :=
  (Endpoint.ofText? text).mapError .endpoint

/-- What an endpoint consists of, a line for each part. -/
def showEndpoint (text : String) : Except Failure Report := do
  let e ← endpointOf text
  return ⟨0, String.join [
    "endpoint: ", e.canonical, "\n",
    "kind:     ", e.kind.label, "\n",
    "main:     ", e.main.canonical, "\n",
    "name:     ", Hex.lower e.name.slot.bytes, "\n",
    "instance: ", Hex.lower e.instanceBytes, "\n",
    "record:   ", Hex.lower e.record.write, "\n"], ""⟩

def matchEndpoint (value filter : String) (wildcard : Bool) : Except Failure Report := do
  let value := Target.endpoint (← endpointOf value)
  let filter := Target.ofEndpoint wildcard (← endpointOf filter)
  let verdict := if value.satisfies filter then " matches " else " does not match "
  return .line (value.text ++ verdict ++ filter.text)

def decodeQuantity (hex : String) (base : Bool) : Except Failure Report := do
  let bytes ← readHex hex
  match QuantityRecord.read.run (.ofBytes bytes) with
  | (.error e, _) => .error (.decode e)
  | (.ok record, rest) =>
    let q ← record.quantity?.mapError .quantity
    if rest.atEnd then return .ofText (if base then q.baseText? else q.text?)
    else .error (.trailing rest.remaining)

namespace Invocation

/-- The configuration that a command runs under. -/
def load (i : Invocation) (s : Surroundings) : Except Failure Configuration :=
  match i.configuration with
  | none => .ok {}
  | some path => (Configuration.ofFile (s.file? path)).mapError (.configuration path)

def run (i : Invocation) (s : Surroundings) : Except Failure Report := do
  let configuration ← i.load s
  match i.command with
  | .decompile c => c.run configuration.decompile s
  | .showEndpoint name => showEndpoint name
  | .matchEndpoint value filter wildcard => matchEndpoint value filter wildcard
  | .decodeQuantity hex base => decodeQuantity hex base

/-- The files that a command reads if it gets so far. -/
def paths (i : Invocation) : List String :=
  i.configuration.toList ++ match i.command with
    | .decompile c => if c.input = "-" then [] else [c.input]
    | _ => []

/-- Whether a command reads the standard input if it gets so far. -/
def readsInput (i : Invocation) : Bool :=
  match i.command with
  | .decompile c => c.input == "-"
  | _ => false

end Invocation

/-- Runs what a list of arguments asks for. -/
def run (args : List String) (s : Surroundings) : Report :=
  match readArguments args with
  | .error stop => .ofStop stop
  | .ok i =>
    match i.run s with
    | .error f => .ofFailure f
    | .ok report => report

end Dxb.CommandLine
