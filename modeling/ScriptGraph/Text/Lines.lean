import ScriptGraph.Text.Pieces

/-!
Lines and their indentation. Only `'\n'` ends a line; every other character, carriage returns and
Unicode line separators included, is part of the line it stands in.
-/

namespace ScriptGraph
namespace Lines

def split (text : List Char) : List (List Char) :=
  Pieces.split '\n' text

def join (lines : List (List Char)) : List Char :=
  Pieces.join '\n' lines

/-- Put `width` spaces in front of every line, the empty ones included. -/
def indent (width : Nat) (text : List Char) : List Char :=
  join ((split text).map (List.replicate width ' ' ++ ·))

/-- The last line of a text, apart from empty ones at its end. -/
def last (text : List Char) : List Char :=
  ((text.reverse.dropWhile (· = '\n')).takeWhile (· ≠ '\n')).reverse

end Lines

/-- A text of `n` spaces. -/
def spaces (n : Nat) : String :=
  String.ofList (List.replicate n ' ')

def indentText (width : Nat) (text : String) : String :=
  String.ofList (Lines.indent width text.toList)

end ScriptGraph
