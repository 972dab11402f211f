import ScriptGraph.Store

/-!
What can be reached from given values through fields and lists, and the loss of
parents that no longer can be. Parent links lead nowhere here: they are what is
forgotten, not what keeps alive.
-/

namespace ScriptGraph
namespace Store

/-- The values one step away. -/
def successors (s : Store) : Value → List Value
  | .list id => s.items id
  | .node id => (s.node id).held
  | .null | .bool _ | .int .. | .real .. | .text .. => []

inductive Reachable (s : Store) (roots : List Value) : Value → Prop
  | root {v : Value} : v ∈ roots → Reachable s roots v
  | step {u v : Value} : Reachable s roots u → v ∈ s.successors u → Reachable s roots v

/-- Collect the nodes and lists reachable from a queue, beside those already found. -/
def markWithin (s : Store) : Nat → List Value → List Value → List Value
  | 0, found, _ => found
  | _ + 1, found, [] => found
  | steps + 1, found, v :: queue =>
    if v.isHandle ∧ v ∉ found then
      markWithin s steps (v :: found) (s.successors v ++ queue)
    else markWithin s steps found queue

/-- How many values all nodes and lists hold together. -/
def edgeCount (s : Store) : Nat :=
  (s.nodes.toList.flatMap Node.held).length + s.lists.toList.flatten.length

/-- The nodes and lists reachable from the roots. Each is looked into once, so the queue
never takes in more than the roots and everything held. -/
def mark (s : Store) (roots : List Value) : List Value :=
  s.markWithin (roots.length + s.edgeCount + 1) [] roots

/-- Forget every parent that is not reachable from the roots. -/
def sweep (s : Store) (roots : List Value) : Store :=
  let live := s.mark roots
  let forget (n : Node) : Node := { n with parent := n.parent.filter fun p => .node p ∈ live }
  { s with nodes := (s.nodes.toList.map forget).toArray }

theorem node_sweep (s : Store) (roots : List Value) (id : NodeId) :
    (s.sweep roots).node id =
      { s.node id with parent := (s.node id).parent.filter fun p => .node p ∈ s.mark roots } := by
  by_cases h : id.index < s.nodes.size
  · simp [node, sweep, Array.getD_eq_getD_getElem?, h]
  · have out := Nat.le_of_not_lt h
    have size : (s.sweep roots).nodes.size = s.nodes.size := by simp [sweep]
    rw [node_of_size_le out, node_of_size_le (size ▸ out)]
    rfl

/-- The parent of a node, as long as it is reachable from the roots. -/
def parentAmong (s : Store) (roots : List Value) (id : NodeId) : Option NodeId :=
  (s.node id).parent.filter fun p => .node p ∈ s.mark roots

end Store
end ScriptGraph
