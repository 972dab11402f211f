import ScriptGraph.Node

/-!
What the library is known by: its version and the names it makes public.
-/

namespace ScriptGraph
namespace About

def version : String :=
  "0.1.0"

def author : String :=
  "jsir Team"

/-- Names of the node catalogue, with the failure its checks report after the base node. -/
def catalogueNames : List String :=
  match Kind.all.map Kind.label with
  | [] => []
  | base :: kinds => base :: "InvalidArgument" :: kinds

def toolNames : List String :=
  ["Settings", "DEFAULT_SETTINGS", "indent"]

def publicNames : List String :=
  ["__version__", "__author__"] ++ catalogueNames ++ toolNames

end About
end ScriptGraph
