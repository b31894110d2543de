import Dxb.CommandLine.Level

/-!
# Commands

What can be asked for on the command line.  Every level takes a configuration file, of which the one
of the innermost level counts, and can be told to be verbose, which changes nothing in the answer.
-/

namespace Dxb.CommandLine

structure DecompileCommand where
  /-- A file, or a dash for the standard input. -/
  input : String
  base64 : Bool
  hex : Bool
  noHeader : Bool
  formatted : Bool
  formattedStrings : Bool
  noComments : Bool
  /-- Write the token tree instead of the script. -/
  tokens : Bool
deriving DecidableEq, Repr

inductive Command where
  | decompile (c : DecompileCommand)
  | showEndpoint (name : String)
  /-- Says whether a value passes a filter, maybe one over every instance. -/
  | matchEndpoint (value filter : String) (wildcard : Bool)
  /-- Writes a quantity, maybe in base units only. -/
  | decodeQuantity (hex : String) (base : Bool)
deriving DecidableEq, Repr

structure Invocation where
  configuration : Option String
  command : Command
deriving DecidableEq, Repr

def flagForm (name : String) : OptionForm := ⟨name, none, .flag⟩

/-- The options of every level. -/
def commonOptions : List OptionForm :=
  [⟨"config", some 'c', .value⟩, ⟨"verbose", some 'v', .flag⟩, ⟨"help", some 'h', .stops .help⟩]

def rootLevel : Level := ⟨⟨"version", some 'V', .stops .version⟩ :: commonOptions, .subcommand⟩

/-- A level that has subcommands only. -/
def groupLevel : Level := ⟨commonOptions, .subcommand⟩

/-- A level with operands, and flags of its own. -/
def leafLevel (operands : Tail) (flags : List String) : Level :=
  ⟨commonOptions ++ flags.map flagForm, operands⟩

/-- The names of the subcommands of a command, which is named by the way to it. -/
def subcommands : List String → List String
  | [] => ["decompile", "endpoint", "quantity", "help"]
  | ["endpoint"] => ["show", "match", "help"]
  | ["quantity"] => ["decode", "help"]
  | _ => []

/-- Whether names lead on from a command, each to a subcommand of the one before. -/
def leadsOn (way : List String) : List String → Bool
  | [] => true
  | name :: names => (subcommands way).contains name && leadsOn (way ++ [name]) names

/-- Reads a level of subcommands: what it was given, the name of the subcommand and the rest.  All
that stands behind `help` names the command to be explained. -/
def readGroup (l : Level) (way args : List String) :
    Except Stop (Given × String × List String) := do
  match ← l.read .nothing none args with
  | (g, some (name, rest)) =>
    if name = "help" then .error (if leadsOn way rest then .help else .usage)
    else .ok (g, name, rest)
  | (_, none) => .error .usage

def readLeaf (operands : Tail) (flags args : List String) : Except Stop Given := do
  return (← (leafLevel operands flags).read .nothing none args).1

/-- The invocation of a command, with what the levels were given from the outside in. -/
def invocation (levels : List Given) (command : Command) : Invocation :=
  ⟨levels.reverse.findSome? (·.value? "config"), command⟩

def readDecompile (outer : List Given) (args : List String) : Except Stop Invocation := do
  let g ← readLeaf (.operands 1 false) ["base64", "hex", "no-header", "formatted",
    "formatted-strings", "no-comments", "tokens"] args
  let input := g.operands.head?.getD "-"
  if g.has "base64" ∧ g.has "hex" then .error .usage
  else return invocation (outer ++ [g]) (.decompile {
    input
    base64 := g.has "base64"
    hex := g.has "hex"
    noHeader := g.has "no-header"
    formatted := g.has "formatted"
    formattedStrings := g.has "formatted-strings"
    noComments := g.has "no-comments"
    tokens := g.has "tokens" })

def readEndpoint (outer : List Given) (args : List String) : Except Stop Invocation := do
  let (group, name, rest) ← readGroup groupLevel ["endpoint"] args
  match name with
  | "show" =>
    let g ← readLeaf (.operands 1 true) [] rest
    match g.operands with
    | [name] => return invocation (outer ++ [group, g]) (.showEndpoint name)
    | _ => .error .usage
  | "match" =>
    let g ← readLeaf (.operands 2 true) ["wildcard"] rest
    match g.operands with
    | [value, filter] =>
      return invocation (outer ++ [group, g]) (.matchEndpoint value filter (g.has "wildcard"))
    | _ => .error .usage
  | _ => .error .usage

def readQuantity (outer : List Given) (args : List String) : Except Stop Invocation := do
  let (group, name, rest) ← readGroup groupLevel ["quantity"] args
  match name with
  | "decode" =>
    let g ← readLeaf (.operands 1 true) ["base"] rest
    match g.operands with
    | [hex] => return invocation (outer ++ [group, g]) (.decodeQuantity hex (g.has "base"))
    | _ => .error .usage
  | _ => .error .usage

/-- What a list of arguments asks for. -/
def readArguments (args : List String) : Except Stop Invocation := do
  let (root, name, rest) ← readGroup rootLevel [] args
  match name with
  | "decompile" => readDecompile [root] rest
  | "endpoint" => readEndpoint [root] rest
  | "quantity" => readQuantity [root] rest
  | _ => .error .usage

end Dxb.CommandLine
