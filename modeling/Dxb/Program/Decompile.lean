import Dxb.Bytes.Base64
import Dxb.Header
import Dxb.Program.Decode
import Dxb.Program.Render
import Dxb.Text.Blank

/-!
# Decompiling

A message is a header and a body; the body is read into a token tree and written as a script.
What can be read is written, and an error stands behind it as a comment; only a panic leaves
nothing.
-/

namespace Dxb

/-- A token tree, with what ended it if that was not the end of the bytes.  A tree that was ended by
a panic is never handed out. -/
structure Decoded where
  tree : TokenTree
  error : Option Halt
deriving DecidableEq, Repr

def errorMark (e : DecodeError) : String := "/* ERROR: " ++ e.message ++ " */"

/-- What is written behind a tree about its end. -/
def endMark? : Option Halt → Option String
  | none => some ""
  | some (.fault e) => some (errorMark e)
  | some .panic => none

/-- The script, and behind it the error; one line feed at the end is left out.  There is none after
a panic. -/
def Decoded.script (formatted : Bool) (d : Decoded) : Option String :=
  (endMark? d.error).map fun mark => Lines.chomp (d.tree.render formatted ++ mark)

/-- Decodes a body in a context. -/
def DecodeContext.decode (ctx : DecodeContext) (body : List UInt8) : Decoded :=
  let (state, error) := ctx.run .initial (.ofBytes body)
  ⟨state.tree, error⟩

/-- The script of a program that may open the given number of levels.  Programs nested in it always
have fewer levels left, and a panic in one of them is a panic of the whole. -/
def decompileWithin (o : Options) (levels : Nat) (body : List UInt8) : Option String :=
  let nested inner program := if inner < levels then decompileWithin o inner program else some ""
  (DecodeContext.decode ⟨o, levels, nested⟩ body).script o.formatted
termination_by levels

/-- The context of a program that `levels` may be open in. -/
def Options.context (o : Options) (levels : Nat) : DecodeContext :=
  ⟨o, levels,
    fun inner program => if inner < levels then decompileWithin o inner program else some ""⟩

/-- Decodes a body without a header. -/
def decodeBody (o : Options) (body : List UInt8) : Decoded :=
  (o.context Instruction.maxDepth).decode body

/-- Decompiles a body without a header. -/
def decompileBody (o : Options) (body : List UInt8) : Option String :=
  decompileWithin o Instruction.maxDepth body

/-- Decodes a message; a bad header leaves an empty tree. -/
def decodeMessage (o : Options) (message : List UInt8) : Decoded :=
  if o.hasHeader then
    match Header.strip? message with
    | .ok (_, body) => decodeBody o body
    | .error e => ⟨TokenTree.empty, some (.fault e)⟩
  else decodeBody o message

/-- Decompiles a message, unless that panics. -/
def decompile (o : Options) (message : List UInt8) : Option String :=
  if o.hasHeader then
    match Header.strip? message with
    | .ok (_, body) => decompileBody o body
    | .error e => some (errorMark e)
  else decompileBody o message

/-- Decompiles a message that is given in base64, maybe between blanks.  Notes are left out, and no
line feed in a text literal stands for itself. -/
def decompileBase64 (formatted hasHeader : Bool) (text : String) : Option String :=
  match Base64.decode? (String.ofList (Blank.trim text.toList)) with
  | some message =>
    decompile { comments := false, formatted, formattedStrings := false, hasHeader } message
  | none => some "/* ERROR: Invalid base64 */"

end Dxb
