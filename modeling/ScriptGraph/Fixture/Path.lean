import ScriptGraph.Fault
import ScriptGraph.Text.Pieces

/-!
Path texts. Empty and `.` components are dropped and `..` is kept, since what it
leads to is known only when the path is resolved.
-/

namespace ScriptGraph

structure Path where
  /-- Empty for a relative path, otherwise one or two slashes. -/
  root : List Char
  components : List (List Char)
  deriving DecidableEq

namespace Path

/-- One slash, unless there are exactly two. -/
def rootOf : List Char → List Char
  | '/' :: '/' :: '/' :: _ => ['/']
  | '/' :: '/' :: _ => ['/', '/']
  | '/' :: _ => ['/']
  | _ => []

def ofChars (text : List Char) : Path :=
  ⟨rootOf text, (Pieces.split '/' text).filter fun c => c ≠ [] ∧ c ≠ ['.']⟩

def toChars (p : Path) : List Char :=
  if p.root = [] ∧ p.components = [] then ['.'] else p.root ++ Pieces.join '/' p.components

def ofString (text : String) : Path :=
  ofChars text.toList

def text (p : Path) : String :=
  String.ofList p.toChars

/-- A path further down; an absolute path stands for itself. -/
def append (p q : Path) : Path :=
  if q.root = [] then ⟨p.root, p.components ++ q.components⟩ else q

def child (p : Path) (name : String) : Path :=
  ⟨p.root, p.components ++ [name.toList]⟩

/-- Take back one component for each `..`; above the top there is only the top. -/
def climb : List (List Char) → List (List Char) → List (List Char)
  | done, [] => done.reverse
  | done, c :: cs => if c = ['.', '.'] then climb done.tail cs else climb (c :: done) cs

/-- The path without `..`, and with at most one leading slash. Every component is looked at
on the way, also one that is taken back, and none may have a null character in it. -/
def resolve (p : Path) : Except Fault Path :=
  if p.components.any (·.contains '\x00') then .error .nullInPath
  else .ok ⟨p.root.take 1, climb [] p.components⟩

/-- The components of a path that lead on from the last directory it shares with another. -/
def beyond : List (List Char) → List (List Char) → List (List Char)
  | c :: cs, d :: ds => if c = d then beyond cs ds else c :: cs
  | cs, [] => cs
  | [], _ :: _ => []

/-- A name of more than 255 bytes. No file can have one. -/
def isOverlong (name : List Char) : Bool :=
  255 < (String.ofList name).utf8ByteSize

/-- A path of 4096 bytes or more. None of that length can be looked up. -/
def isTooLong (p : Path) : Bool :=
  4096 ≤ p.text.utf8ByteSize

end Path
end ScriptGraph
