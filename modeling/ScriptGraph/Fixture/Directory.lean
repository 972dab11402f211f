import ScriptGraph.Fixture.Build
import ScriptGraph.Fixture.Path
import ScriptGraph.Text.Newline

/-!
Directories of fixtures. A fixture is a file that builds a graph; the text the
graph should render to stands in a file beside it.
-/

namespace ScriptGraph

/-- What a file holds: bytes, and how to build if it says so when it is loaded. -/
structure Content where
  data : ByteArray
  build : Option Build

namespace Content

/-- A file that says nothing of how to build. -/
def bytes (data : ByteArray) : Content :=
  ⟨data, none⟩

/-- A file that builds with the library. It is loaded and never compared with anything, so its
own text is left out. -/
def builder (build : Action Value) : Content :=
  ⟨.empty, some (.ofAction build)⟩

end Content

structure File where
  name : String
  content : Content

structure Directory where
  location : Path
  files : List File

/-- What a path leads to. -/
inductive Place
  | absent
  | file
  | directory
  /-- A directory further up, which has no fixtures. -/
  | above
  /-- The path is too long to be looked up. -/
  | unreachable
  deriving DecidableEq

/-- Insert a name into ascending names, unless it is there. -/
def insertName (name : String) : List String → List String
  | [] => [name]
  | other :: names =>
    if name < other then name :: other :: names
    else if name = other then other :: names
    else other :: insertName name names

namespace Directory

/-- The content of a file; of two files of one name the later counts. -/
def content? (d : Directory) (name : String) : Option Content :=
  (d.files.reverse.find? (·.name = name)).map (·.content)

def data? (d : Directory) (name : String) : Option ByteArray :=
  (d.content? name).map (·.data)

def build? (d : Directory) (name : String) : Option Build :=
  (d.content? name).bind (·.build)

/-- A name that cannot be looked up, since it or the path that it makes is too long. -/
def isOutOfReach (d : Directory) (name : String) : Bool :=
  Path.isOverlong name.toList || (d.location.child name).isTooLong

/-- Look up a path. It is followed as far as there are directories, and only the component
after the last of them can be found to be too long. -/
def place (d : Directory) (path : Path) : Place :=
  if path.isTooLong then .unreachable
  else if path = d.location then .directory
  else if path.root ≠ d.location.root then .absent
  else
    match Path.beyond path.components d.location.components with
    | [] => .above
    | name :: _ =>
      if Path.isOverlong name then .unreachable
      else if d.files.any fun file => path = d.location.child file.name then .file
      else .absent

/-- The name of a fixture file without its ending: `t*.py` is what marks a fixture. -/
def stem? (name : String) : Option String :=
  let cs := name.toList
  if cs.head? = some 't' ∧ 4 ≤ cs.length ∧ cs.drop (cs.length - 3) = ['.', 'p', 'y'] then
    some (String.ofList (cs.take (cs.length - 3)))
  else none

/-- The names of the fixture files, in ascending order of code points. -/
def fixtures (d : Directory) : List String :=
  ((d.files.map (·.name)).filter fun name => (stem? name).isSome).foldr insertName []

/-- The expected text that is read from bytes: newlines are unified, and one at the end is not
part of it. There is none if the bytes are not UTF-8. -/
def expected? (data : ByteArray) : Option String :=
  (String.fromUTF8? data).map fun text =>
    String.ofList (Newline.dropFinal (Newline.unify text.toList))

end Directory
end ScriptGraph
