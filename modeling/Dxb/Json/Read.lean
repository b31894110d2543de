import Dxb.Bytes.Hex
import Dxb.Json.Value

/-!
# Reading JSON

The text is cut into tokens, and a machine with a stack of open arrays and objects puts them
together.  Both go over their input once.  The grammar is the strict one: no comments, no commas
before an end, nothing behind the value, and only the four blanks of JSON between tokens.
-/

namespace Dxb

inductive JsonToken where
  | openArray | closeArray | openObject | closeObject | comma | colon
  | text (s : Option String)
  /-- A value of one word: a number, a truth value, or null. -/
  | word (v : JsonValue)

namespace JsonToken

/-! ## Numerals -/

def areDigits (cs : List Char) : Bool := !cs.isEmpty && cs.all Char.isDigit

/-- Whether a numeral can end like this: nothing, or an exponent. -/
def isExponent : List Char → Bool
  | [] => true
  | e :: cs =>
    (e == 'e' || e == 'E') && areDigits (match cs with
      | '+' :: cs | '-' :: cs => cs
      | cs => cs)

/-- Whether a numeral can end like this: maybe a fraction, and maybe an exponent. -/
def isFraction : List Char → Bool
  | '.' :: c :: cs => c.isDigit && isExponent (cs.dropWhile Char.isDigit)
  | cs => isExponent cs

def isNumeral (cs : List Char) : Bool :=
  match (match cs with
    | '-' :: cs => cs
    | cs => cs) with
  | '0' :: cs => isFraction cs
  | c :: cs => c.isDigit && isFraction (cs.dropWhile Char.isDigit)
  | [] => false

def ofWord? (cs : List Char) : Option JsonToken :=
  match String.ofList cs with
  | "null" => some (word .null)
  | "true" => some (word (.bool true))
  | "false" => some (word (.bool false))
  | s => if isNumeral cs then some (word (.number s)) else none

/-! ## Texts -/

/-- The text of a list of UTF-16 code units and code points: surrogates must come in pairs. -/
def ofUnits? : List Nat → Option (List Char)
  | [] => some []
  | u :: units =>
    if 0xD800 ≤ u ∧ u < 0xDC00 then
      match units with
      | v :: units =>
        if 0xDC00 ≤ v ∧ v < 0xE000 then
          (Char.ofNat (0x10000 + (u - 0xD800) * 0x400 + (v - 0xDC00)) :: ·) <$> ofUnits? units
        else none
      | [] => none
    else if 0xDC00 ≤ u ∧ u < 0xE000 then none
    else (Char.ofNat u :: ·) <$> ofUnits? units

/-- The token of a text, whose units are given backwards. -/
def ofText (units : List Nat) : JsonToken := text ((ofUnits? units.reverse).map String.ofList)

/-- What a character means after a backslash. -/
def escaped? : Char → Option Char
  | '"' => some '"'
  | '\\' => some '\\'
  | '/' => some '/'
  | 'b' => some '\x08'
  | 'f' => some '\x0C'
  | 'n' => some '\n'
  | 'r' => some '\r'
  | 't' => some '\t'
  | _ => none

/-! ## Cutting -/

/-- Where the cutting is.  Characters and units are kept backwards. -/
inductive Place where
  | between
  | inWord (cs : List Char)
  | inText (units : List Nat)
  | inEscape (units : List Nat)
  /-- In the hex digits of a unit, of which some are left. -/
  | inUnit (units : List Nat) (value left : Nat)

/-- The tokens that a character between tokens makes, and the place after it. -/
def start : Char → List JsonToken × Place
  | ' ' | '\n' | '\r' | '\t' => ([], .between)
  | '[' => ([openArray], .between)
  | ']' => ([closeArray], .between)
  | '{' => ([openObject], .between)
  | '}' => ([closeObject], .between)
  | ',' => ([comma], .between)
  | ':' => ([colon], .between)
  | '"' => ([], .inText [])
  | c => ([], .inWord [c])

/-- Whether a character ends the word before it. -/
def endsWord (c : Char) : Bool :=
  match start c with
  | (_, .inWord _) => false
  | _ => true

/-- The tokens that a character makes at a place, and the place after it. -/
def feed (c : Char) : Place → Option (List JsonToken × Place)
  | .between => some (start c)
  | .inWord cs =>
    if endsWord c then do
      let token ← ofWord? cs.reverse
      let (tokens, place) := start c
      return (token :: tokens, place)
    else some ([], .inWord (c :: cs))
  | .inText units =>
    if c = '"' then some ([ofText units], .between)
    else if c = '\\' then some ([], .inEscape units)
    else if c.toNat < 0x20 then none
    else some ([], .inText (c.toNat :: units))
  | .inEscape units =>
    if c = 'u' then some ([], .inUnit units 0 4)
    else (escaped? c).map fun d => ([], .inText (d.toNat :: units))
  | .inUnit units value left => do
    let value := 16 * value + (← Hex.value? c)
    return ([], if left ≤ 1 then .inText (value :: units) else .inUnit units value (left - 1))

/-- Cuts a text from a place on; `done` holds the tokens so far, backwards. -/
def cutFrom (done : List JsonToken) (place : Place) : List Char → Option (List JsonToken)
  | [] =>
    match place with
    | .between => some done.reverse
    | .inWord cs => do return (← ofWord? cs.reverse) :: done |>.reverse
    | _ => none
  | c :: cs =>
    match feed c place with
    | some (tokens, place) => cutFrom (tokens.reverse ++ done) place cs
    | none => none

def cut (text : String) : Option (List JsonToken) := cutFrom [] .between text.toList

end JsonToken

/-! ## Putting together -/

/-- An array or an object that is still open; what it has so far is kept backwards. -/
inductive JsonFrame where
  | array (items : List JsonValue)
  /-- An object that waits for the value of a key. -/
  | object (members : List (Option String × JsonValue)) (key : Option String)

/-- What a reader waits for, inside of its open frames. -/
inductive JsonReader where
  /-- A value, or the end of the array that was just opened. -/
  | value (frames : List JsonFrame) (mayEnd : Bool)
  /-- A key, or the end of the object that was just opened. -/
  | key (frames : List JsonFrame) (members : List (Option String × JsonValue)) (mayEnd : Bool)
  | colon (frames : List JsonFrame) (members : List (Option String × JsonValue))
      (key : Option String)
  /-- What comes behind a value. -/
  | behind (frames : List JsonFrame) (v : JsonValue)

namespace JsonReader

def step : JsonReader → JsonToken → Option JsonReader
  | value frames _, .text s => some (behind frames (.text s))
  | value frames _, .word v => some (behind frames v)
  | value frames _, .openArray => some (value (.array [] :: frames) true)
  | value frames _, .openObject => some (key frames [] true)
  | value (.array [] :: frames) true, .closeArray => some (behind frames (.array []))
  | key frames members _, .text k => some (colon frames members k)
  | key frames _ true, .closeObject => some (behind frames (.object []))
  | colon frames members k, .colon => some (value (.object members k :: frames) false)
  | behind (.array items :: frames) v, .comma => some (value (.array (v :: items) :: frames) false)
  | behind (.array items :: frames) v, .closeArray =>
    some (behind frames (.array (v :: items).reverse))
  | behind (.object members k :: frames) v, .comma => some (key frames ((k, v) :: members) false)
  | behind (.object members k :: frames) v, .closeObject =>
    some (behind frames (.object ((k, v) :: members).reverse))
  | _, _ => none

/-- The value of a list of tokens. -/
def run? (tokens : List JsonToken) : Option JsonValue :=
  match tokens.foldlM step (value [] false) with
  | some (behind [] v) => some v
  | _ => none

end JsonReader

namespace JsonValue

/-- The value that a text spells. -/
def parse? (text : String) : Option JsonValue := do JsonReader.run? (← JsonToken.cut text)

/-! ## Reading values of a type -/

/-- The fields of a record.  It is an object, where unknown keys are passed over and no field may
come twice; or an array of the fields in order, which may end early. -/
def fields? (names : List String) : JsonValue → Option (List (String × JsonValue))
  | .array items => if items.length ≤ names.length then some (names.zip items) else none
  | .object members => do
    let members ← members.mapM fun (key, v) => key.map (·, v)
    let known := members.filter fun (key, _) => names.contains key
    if (known.map (·.1)).Nodup then some known else none
  | _ => none

/-- The value of a field, or the default if it is absent. -/
def field? {α : Type} (fields : List (String × JsonValue)) (name : String) (default_ : α)
    (read : JsonValue → Option α) : Option α :=
  match fields.lookup name with
  | some v => read v
  | none => some default_

/-- A natural number of at most 64 bits, written with digits only. -/
def nat64? : JsonValue → Option Nat
  | .number numeral =>
    if numeral.toList.all Char.isDigit then
      let n := numeral.toList.foldl (fun n c => 10 * n + (c.toNat - '0'.toNat)) 0
      if n < UInt64.size then some n else none
    else none
  | _ => none

def bool? : JsonValue → Option Bool
  | .bool b => some b
  | _ => none

def text? : JsonValue → Option String
  | .text s => s
  | _ => none

def list? {α : Type} (read : JsonValue → Option α) : JsonValue → Option (List α)
  | .array items => items.mapM read
  | _ => none

/-- A value, or null. -/
def option? {α : Type} (read : JsonValue → Option α) : JsonValue → Option (Option α)
  | .null => some none
  | v => some <$> read v

end JsonValue

end Dxb
