/-!
# Lines and indentation

A line ends at a line feed, and a carriage return directly before the line feed belongs to the
ending.  The end of the text also ends a line, if there is something in it.
-/

namespace Dxb.Lines

/-- Removes a carriage return at the end of a line that is given backwards. -/
def dropReturn : List Char → List Char
  | '\r' :: line => line
  | line => line

/-- The lines of a text, where `line` holds the current line so far, backwards. -/
def linesFrom (line : List Char) : List Char → List (List Char)
  | [] => if line.isEmpty then [] else [line.reverse]
  | c :: rest =>
    if c = '\n' then (dropReturn line).reverse :: linesFrom [] rest
    else linesFrom (c :: line) rest

def lines (text : List Char) : List (List Char) := linesFrom [] text

/-- Four spaces in front of a line that is not empty. -/
def indentLine (line : List Char) : List Char :=
  if line.isEmpty then [] else ' ' :: ' ' :: ' ' :: ' ' :: line

/-- Indents every line; the last one is left without an ending. -/
def indent (text : List Char) : List Char :=
  List.intercalate ['\n'] ((lines text).map indentLine)

/-- A text without the line feeds at its end. -/
def trimEnd (text : List Char) : List Char :=
  (text.reverse.dropWhile (· == '\n')).reverse

/-- A text without one line feed at its end. -/
def chomp (text : String) : String :=
  match text.toList.reverse with
  | '\n' :: rest => String.ofList rest.reverse
  | _ => text

end Dxb.Lines
