import ScriptGraph.World

/-!
Taking nodes in: parent links, and the sequence of a program's elements as a
stack. A parent link says who took the node in last; it holds nothing alive and no
rendering reads it. Fields can also be set from outside, without any of this.
-/

namespace ScriptGraph
namespace Action

/-- Make `parent` the parent of a value. There is nothing to do for null. -/
def adopt (parent : NodeId) (v : Value) : Action Unit := do
  expectOwn parent "become_parent_of"
  match v with
  | .null => return ()
  | .node child => do
    expectOwn child "set_parent"
    setParent child (some parent)
  | v => lacks v "set_parent"

theorem adopt_node {w : World} {parent child : NodeId}
    (hp : (w.store.node parent).override? "become_parent_of" = none)
    (hc : (w.store.node child).override? "set_parent" = none) :
    adopt parent (.node child) w = .ok () (w.link child (some parent)) := by
  refine (bind_of_ok (expectOwn_of_none hp)).trans ?_
  exact (bind_of_ok (expectOwn_of_none hc)).trans rfl

def adoptAll (parent : NodeId) : List Value → Action Unit
  | [] => return ()
  | v :: vs => do
    adopt parent v
    adoptAll parent vs

/-- The number of items of a list or characters of a text. -/
def length (v : Value) : Action Nat := do
  match v with
  | .list id => return ((← store).items id).length
  | .text t _ => return t.length
  | _ => throw (.noLength ((← store).typeName v))

def appendTo (sequence v : Value) : Action Unit :=
  match sequence with
  | .list id => modifyStore fun s => s.setItems id (s.items id ++ [v])
  | other => refuse other "append"

/-- The elements of the program that a value is; `member` is what it is wanted for. -/
def elementsFor (member : String) (v : Value) : Action (NodeId × Value) := do
  match v with
  | .node id =>
    expectOwn id member
    match (← store).shape id with
    | .program _ elements => return (id, elements)
    | _ => lacks v member
  | _ => lacks v member

theorem elementsFor_node {w : World} {member : String} {id : NodeId}
    (own : (w.store.node id).override? member = none) :
    elementsFor member (.node id) w = (match w.store.shape id with
      | .program _ elements => pure (id, elements)
      | _ => lacks (.node id) member : Action (NodeId × Value)) w :=
  bind_of_ok (expectOwn_of_none own)

theorem elementsFor_program {w : World} {member : String} {id : NodeId} {strict elements : Value}
    (program : w.store.shape id = .program strict elements)
    (own : (w.store.node id).override? member = none) :
    elementsFor member (.node id) w = .ok (id, elements) w := by
  rw [elementsFor_node own, program]
  rfl

/-- Adopt and append one value after the other, up to the first that cannot be taken. -/
def pushEach (id : NodeId) (elements : Value) : List Value → Action Unit
  | [] => return ()
  | v :: vs => do
    adopt id v
    appendTo elements v
    pushEach id elements vs

/-- Append values to a program; the result is how many elements it has then. -/
def push (target : Value) (vs : List Value) : Action Nat := do
  let (id, elements) ← elementsFor "push" target
  pushEach id elements vs
  let count ← length elements
  record .debug
    ("Pushed " ++ vs.length.repr ++ " node(s), module now holds " ++ count.repr)
  return count

/-- Remove the last item of a list. -/
def removeLast (id : ListId) : Action Value := do
  match ((← store).items id).getLast? with
  | none => throw .nothingLeft
  | some v =>
    modifyStore fun s => s.setItems id (s.items id).dropLast
    return v

theorem removeLast_concat {w : World} {id : ListId} {rest : List Value} {v : Value}
    (h : w.store.items id = rest ++ [v]) :
    removeLast id w = .ok v { w with store := w.store.setItems id rest } := by
  change (match (w.store.items id).getLast? with
    | none => throw .nothingLeft
    | some v => do
      modifyStore fun s => s.setItems id (s.items id).dropLast
      return v : Action Value) w = _
  rw [h, List.getLast?_concat]
  change EStateM.Result.ok v { w with store := w.store.setItems id (w.store.items id).dropLast } = _
  rw [h, List.dropLast_concat]

/-- Remove the last element of a program, or null if it has none. Elements that are a
program themselves are popped in turn, to a bounded depth. -/
def popWithin : Nat → Value → Action Value
  | 0, _ => throw .endless
  | depth + 1, target => do
    let (_, elements) ← elementsFor "pop" target
    if !(← store).isTrue elements then return .null
    let v ←
      match elements with
      | .list id => removeLast id
      | .node _ => popWithin depth elements
      | other => lacks other "pop"
    let count ← length elements
    record .debug
      ("Popped " ++ (← store).typeName v ++ ", module now holds " ++ count.repr)
    return v

def pop (target : Value) : Action Value := do
  popWithin ((← store).nodes.size + 1) target

/-- The list that a value is; `member` is what it is wanted for. -/
def listFor (member : String) (v : Value) : Action ListId :=
  match v with
  | .list id => return id
  | _ => refuse v member

/-- Set an attribute without any check or adoption. The parent is not set this way, nor is
what makes a value what it is. -/
def assign (v : Value) (field : String) (value : Value) : Action Unit :=
  match v with
  | .node id =>
    if field = "parent" then throw (.readOnly field)
    else
      match Fault.ofReserved? field with
      | some fault => throw fault
      | none => modifyStore fun s => s.setNode id ((s.node id).setAttribute field value)
  | _ => if field = "__class__" then throw (.reserved field) else lacks v field

/-- Set or clear the parent of a node. -/
def assignParent (v parent : Value) : Action Unit := do
  match v with
  | .node id =>
    expectOwn id "set_parent"
    match parent with
    | .null => setParent id none
    | .node p => setParent id (some p)
    | _ => throw (.notReferable ((← store).typeName parent))
  | _ => lacks v "set_parent"

/-- Remove the last element of a list or of a program. -/
def popAny (v : Value) : Action Value :=
  match v with
  | .list id => removeLast id
  | _ => pop v

end Action
end ScriptGraph
