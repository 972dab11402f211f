import ScriptGraph.Fault
import ScriptGraph.Node

/-!
The store of nodes and lists. Handles are positions, building appends, and
nothing is ever removed. Reading is total: a handle outside the store reads as a
bare node or an empty list.
-/

namespace ScriptGraph

structure Store where
  nodes : Array Node
  lists : Array (List Value)
  deriving DecidableEq

namespace Store

def empty : Store :=
  ⟨#[], #[]⟩

def node (s : Store) (id : NodeId) : Node :=
  s.nodes.getD id.index (.ofShape .bare)

def items (s : Store) (id : ListId) : List Value :=
  s.lists.getD id.index []

def shape (s : Store) (id : NodeId) : Shape :=
  (s.node id).shape

/-- The handle that the next node gets. -/
def nextNode (s : Store) : NodeId :=
  ⟨s.nodes.size⟩

def nextList (s : Store) : ListId :=
  ⟨s.lists.size⟩

def addNode (s : Store) (shape : Shape) : Store :=
  { s with nodes := s.nodes.push (.ofShape shape) }

def addList (s : Store) (items : List Value) : Store :=
  { s with lists := s.lists.push items }

def setNode (s : Store) (id : NodeId) (n : Node) : Store :=
  { s with nodes := s.nodes.setIfInBounds id.index n }

def setItems (s : Store) (id : ListId) (items : List Value) : Store :=
  { s with lists := s.lists.setIfInBounds id.index items }

def setParent (s : Store) (child : NodeId) (parent : Option NodeId) : Store :=
  s.setNode child ((s.node child).setParent parent)

theorem node_addNode_nextNode (s : Store) (shape : Shape) :
    (s.addNode shape).node s.nextNode = .ofShape shape := by
  simp [node, addNode, nextNode, Array.getD_eq_getD_getElem?]

theorem node_addNode_of_ne (s : Store) (shape : Shape) {id : NodeId} (h : id ≠ s.nextNode) :
    (s.addNode shape).node id = s.node id := by
  have h : id.index ≠ s.nodes.size := fun e => h (by cases id; exact congrArg NodeId.mk e)
  simp [node, addNode, Array.getD_eq_getD_getElem?, Array.getElem?_push, h]

theorem items_addList_nextList (s : Store) (items : List Value) :
    (s.addList items).items s.nextList = items := by
  simp [Store.items, addList, nextList, Array.getD_eq_getD_getElem?]

theorem node_setNode_of_ne (s : Store) {id other : NodeId} (n : Node) (h : other ≠ id) :
    (s.setNode id n).node other = s.node other := by
  have h : id.index ≠ other.index := fun e => h (by cases id; cases other; simp_all)
  simp [node, setNode, Array.getD_eq_getD_getElem?, Array.getElem?_setIfInBounds_ne h]

theorem node_setNode_self (s : Store) {id : NodeId} (n : Node) (h : id.index < s.nodes.size) :
    (s.setNode id n).node id = n := by
  simp [node, setNode, Array.getD_eq_getD_getElem?, h]

theorem node_of_size_le {s : Store} {id : NodeId} (h : s.nodes.size ≤ id.index) :
    s.node id = .ofShape .bare := by
  simp [node, Array.getD_eq_getD_getElem?, Array.getElem?_eq_none h]

theorem node_setParent_self (s : Store) {child : NodeId} (parent : Option NodeId)
    (h : child.index < s.nodes.size) :
    (s.setParent child parent).node child = (s.node child).setParent parent :=
  s.node_setNode_self _ h

theorem node_setParent_of_ne (s : Store) {id child : NodeId} (parent : Option NodeId)
    (h : id ≠ child) : (s.setParent child parent).node id = s.node id :=
  s.node_setNode_of_ne _ h

theorem size_setParent (s : Store) (child : NodeId) (parent : Option NodeId) :
    (s.setParent child parent).nodes.size = s.nodes.size := by
  simp [setParent, setNode]

/-- Of a node nothing but the link to its parent differs. -/
theorem node_setParent (s : Store) (child : NodeId) (parent : Option NodeId) (id : NodeId) :
    (s.setParent child parent).node id = s.node id ∨
      (s.setParent child parent).node id = (s.node id).setParent parent := by
  by_cases other : id = child
  · subst other
    by_cases hin : id.index < s.nodes.size
    · exact .inr (s.node_setParent_self parent hin)
    · have out := Nat.le_of_not_lt hin
      rw [node_of_size_le out, node_of_size_le (s.size_setParent id parent ▸ out)]
      exact .inl rfl
  · exact .inl (s.node_setParent_of_ne parent other)

theorem shape_setParent (s : Store) (child : NodeId) (parent : Option NodeId) (id : NodeId) :
    (s.setParent child parent).shape id = s.shape id := by
  rcases s.node_setParent child parent id with h | h <;> rw [shape, h] <;> rfl

theorem override?_setParent (s : Store) (child : NodeId) (parent : Option NodeId) (id : NodeId)
    {member : String} (h : member ≠ Node.linkName) :
    ((s.setParent child parent).node id).override? member = (s.node id).override? member := by
  rcases s.node_setParent child parent id with e | e
  · rw [e]
  · rw [e, Node.override?_setParent _ _ h]

/-- The name of a value's type. -/
def typeName (s : Store) : Value → String
  | .null => "NoneType"
  | .bool _ => "bool"
  | .int .. => "int"
  | .real .. => "float"
  | .text .. => "str"
  | .list _ => "list"
  | .node id => (s.node id).kind.label

/-- What counts as true: every node, and whatever is not null, false, zero or empty. -/
def isTrue (s : Store) : Value → Bool
  | .null => false
  | .bool b => b
  | .int n _ => n ≠ 0
  | .real x _ => !x.isZero
  | .text t _ => t ≠ ""
  | .list id => s.items id ≠ []
  | .node _ => true

/-- Why a value does not carry out an operation that it should: it has none of that name, or
an attribute stands in its place. -/
def refusal (s : Store) (v : Value) (member : String) : Fault :=
  match v with
  | .node id =>
    match (s.node id).override? member with
    | some v => .notCallable (s.typeName v)
    | none => .lacks (s.typeName v) member
  | _ => .lacks (s.typeName v) member

/-- Whether something is found on a value under the name of an operation. -/
def offers (s : Store) (v : Value) (member : String) : Bool :=
  match v with
  | .node id =>
    member = "become_parent_of" ∨ member = "set_parent" ∨ ((s.node id).override? member).isSome
  | .list _ => member = "append" ∨ member = "insert"
  | .null | .bool _ | .int .. | .real .. | .text .. => false

end Store
end ScriptGraph
