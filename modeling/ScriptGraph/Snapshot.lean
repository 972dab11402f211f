import ScriptGraph.Bindings
import ScriptGraph.Fault
import ScriptGraph.Store

/-!
Values as they are reported: lists are written out, and a node is given by its
kind and by the first name that it goes by.
-/

namespace ScriptGraph

inductive Snapshot
  | null
  | bool (b : Bool)
  | int (n : Int)
  | real (x : Binary64)
  | text (s : String)
  | list (items : List Snapshot)
  | node (kind : Kind) (name : Option String)

namespace Store

/-- Write out a value to a bounded depth of lists. -/
def snapshotWithin (s : Store) (names : Bindings) : Nat → Value → Except Fault Snapshot
  | _, .null => .ok .null
  | _, .bool b => .ok (.bool b)
  | _, .int n _ => .ok (.int n)
  | _, .real x _ => .ok (.real x)
  | _, .text t _ => .ok (.text t)
  | _, .node id => .ok (.node (s.node id).kind (names.nameOf? (.node id)))
  | 0, .list _ => .error .endless
  | depth + 1, .list id => do
    return .list (← (s.items id).mapM (snapshotWithin s names depth))

def snapshot (s : Store) (names : Bindings) (v : Value) : Except Fault Snapshot :=
  s.snapshotWithin names (s.lists.size + 1) v

end Store
end ScriptGraph
