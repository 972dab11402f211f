import ScriptGraph.Text.Printable

/-!
Texts in quotes. The code of a character never depends on its neighbours, so
quoting works one character at a time once the quotation mark is chosen.
-/

namespace ScriptGraph
namespace Quoted

/-- Apostrophes, unless the text holds an apostrophe and no double quotation mark. -/
def mark (text : List Char) : Char :=
  if '\'' ∈ text ∧ '"' ∉ text then '"' else '\''

def hexDigit (n : Nat) : Char :=
  if n < 10 then Char.ofNat (48 + n) else Char.ofNat (87 + n)

/-- The last `width` hexadecimal digits of `n`. -/
def hex : Nat → Nat → List Char
  | 0, _ => []
  | width + 1, n => hex width (n / 16) ++ [hexDigit (n % 16)]

/-- A character by its code point, in two, four or eight digits. -/
def byCode (c : Char) : List Char :=
  if c.toNat < 256 then '\\' :: 'x' :: hex 2 c.toNat
  else if c.toNat < 65536 then '\\' :: 'u' :: hex 4 c.toNat
  else '\\' :: 'U' :: hex 8 c.toNat

def escape (quotation : Char) (c : Char) : List Char :=
  if c = quotation ∨ c = '\\' then ['\\', c]
  else if c = '\n' then ['\\', 'n']
  else if c = '\r' then ['\\', 'r']
  else if c = '\t' then ['\\', 't']
  else if isPrintable c then [c]
  else byCode c

def encode (text : List Char) : List Char :=
  mark text :: text.flatMap (escape (mark text)) ++ [mark text]

end Quoted

def quote (text : String) : String :=
  String.ofList (Quoted.encode text.toList)

end ScriptGraph
