/-!
# Levels of a command line

A command with subcommands reads its own arguments up to the name of the subcommand, which reads the
rest.  Each of them is a level: it has options, and either subcommands or operands.  Options have a
long name, maybe a short letter, and maybe a value; a level takes each option once.  Short options
can share one dash, and the value of one can follow it directly.  After `--` there are operands
only.
-/

namespace Dxb.CommandLine

/-- Why the arguments do not name something to do. -/
inductive Stop where
  | usage
  | version
  | help
deriving DecidableEq, Repr

inductive OptionKind where
  | flag
  | value
  /-- Reading ends here. -/
  | stops (stop : Stop)
deriving DecidableEq, Repr

structure OptionForm where
  name : String
  letter : Option Char
  kind : OptionKind
deriving DecidableEq, Repr

/-- What stands behind the options of a level. -/
inductive Tail where
  | subcommand
  /-- At most so many operands, and whether one may be empty. -/
  | operands (most : Nat) (mayBeEmpty : Bool)
deriving DecidableEq, Repr

structure Level where
  options : List OptionForm
  tail : Tail

/-- What a level was given. -/
structure Given where
  /-- The options by name, each with its value; that of a flag is empty. -/
  options : List (String × String)
  operands : List String
deriving DecidableEq, Repr

namespace Given

def nothing : Given := ⟨[], []⟩

def has (g : Given) (name : String) : Bool := g.options.any (·.1 == name)

def value? (g : Given) (name : String) : Option String := g.options.lookup name

/-- Takes an option with its value. -/
def take (g : Given) (o : OptionForm) (value : String) : Except Stop Given :=
  match o.kind with
  | .stops stop => .error stop
  | .flag =>
    if g.has o.name then .error .usage else .ok { g with options := (o.name, "") :: g.options }
  | .value =>
    if g.has o.name ∨ value = "" then .error .usage
    else .ok { g with options := (o.name, value) :: g.options }

end Given

namespace Level

def long? (l : Level) (name : String) : Option OptionForm := l.options.find? (·.name == name)

def short? (l : Level) (letter : Char) : Option OptionForm :=
  l.options.find? (·.letter == some letter)

/-- Takes a long option, given without its dashes.  The result also says which option still waits
for its value. -/
def takeLong (l : Level) (g : Given) (arg : List Char) : Except Stop (Given × Option OptionForm) :=
  let (name, attached) := arg.span (· != '=')
  match l.long? (String.ofList name), attached with
  | none, _ => .error .usage
  | some o, _ :: value =>
    if o.kind = .value then do return (← g.take o (String.ofList value), none) else .error .usage
  | some o, [] => if o.kind = .value then .ok (g, some o) else do return (← g.take o "", none)

/-- Takes the letters behind one dash.  The result also says which option still waits for its
value. -/
def takeLetters (l : Level) (g : Given) : List Char → Except Stop (Given × Option OptionForm)
  | [] => .ok (g, none)
  | letter :: rest =>
    match l.short? letter with
    | none => .error .usage
    | some o =>
      if o.kind = .value then
        match rest with
        | [] => .ok (g, some o)
        | '=' :: value | value => do return (← g.take o (String.ofList value), none)
      else do takeLetters l (← g.take o "") rest

/-- Takes operands, as many as the level has room for.  An empty one is refused at once where none
may be empty, whatever follows it. -/
def takeOperands (l : Level) (g : Given) (args : List String) : Except Stop Given :=
  let operands := g.operands ++ args
  match l.tail with
  | .operands most mayBeEmpty =>
    if operands.length ≤ most ∧ (mayBeEmpty ∨ "" ∉ operands) then .ok { g with operands }
    else .error .usage
  | .subcommand => if args.isEmpty then .ok g else .error .usage

/-- What an argument is. -/
inductive Shape where
  /-- The mark before the last operands. -/
  | separator
  | long (arg : List Char)
  | letters (cs : List Char)
  | plain
deriving DecidableEq, Repr

def shape (arg : String) : Shape :=
  match arg.toList with
  | ['-', '-'] => .separator
  | '-' :: '-' :: arg => .long arg
  | ['-'] => .plain
  | '-' :: cs => .letters cs
  | _ => .plain

/-- Reads the arguments of a level: what it was given, and the subcommand with the arguments behind
it.  An option without a value takes the next argument, unless that is shaped like an option. -/
def read (l : Level) (g : Given) (waiting : Option OptionForm) :
    List String → Except Stop (Given × Option (String × List String))
  | [] => if waiting.isSome then .error .usage else .ok (g, none)
  | arg :: rest =>
    match waiting, shape arg with
    | some o, .plain => do read l (← g.take o arg) none rest
    | some _, _ => .error .usage
    | none, .separator => do return (← l.takeOperands g rest, none)
    | none, .long arg => do
      let (g, waiting) ← l.takeLong g arg
      read l g waiting rest
    | none, .letters cs => do
      let (g, waiting) ← l.takeLetters g cs
      read l g waiting rest
    | none, .plain =>
      match l.tail with
      | .subcommand => .ok (g, some (arg, rest))
      | .operands .. => do read l (← l.takeOperands g [arg]) none rest

end Level

end Dxb.CommandLine
