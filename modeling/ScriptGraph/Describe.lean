import ScriptGraph.Number.Shortest
import ScriptGraph.Store
import ScriptGraph.Text.Quoted

/-!
Descriptions of values: every node by its kind and fields, every list by its
items. A node or list met again inside its own description is cut short, so the
description of a cyclic graph is finite.
-/

namespace ScriptGraph
namespace Store

/-- Describe to a bounded depth; `unfinished` holds the nodes and lists whose description is not
finished yet. -/
def describeWithin (s : Store) : Nat → List Value → Value → String
  | _, _, .null => "None"
  | _, _, .bool b => if b then "True" else "False"
  | _, _, .int n _ => n.repr
  | _, _, .real x _ => x.text
  | _, _, .text t _ => quote t
  | 0, _, .list _ => "[...]"
  | 0, _, .node _ => "..."
  | depth + 1, unfinished, .list id =>
    if .list id ∈ unfinished then "[...]"
    else
      "[" ++ ", ".intercalate
        ((s.items id).map (s.describeWithin depth (.list id :: unfinished))) ++ "]"
  | depth + 1, unfinished, .node id =>
    if .node id ∈ unfinished then "..."
    else
      (s.node id).kind.label ++ "(" ++ ", ".intercalate
        ((s.shape id).fields.map fun field =>
          field.1 ++ "=" ++ s.describeWithin depth (.node id :: unfinished) field.2) ++ ")"

/-- The description of a value. Everything unfinished is a different node or list, so their
number, and one step more, bounds the depth. -/
def describe (s : Store) (v : Value) : String :=
  s.describeWithin (s.nodes.size + s.lists.size + 1) [] v

end Store
end ScriptGraph
