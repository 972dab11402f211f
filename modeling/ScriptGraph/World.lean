import ScriptGraph.Fault
import ScriptGraph.Store

/-!
Actions on a store that keep a journal. What an action has done before it fails
stays done.
-/

namespace ScriptGraph

inductive Level
  | debug
  | info
  | warning
  | error
  deriving DecidableEq

def Level.label : Level → String
  | debug => "DEBUG"
  | info => "INFO"
  | warning => "WARNING"
  | error => "ERROR"

/-- A line of the journal. -/
structure Entry where
  level : Level
  text : String
  deriving DecidableEq

def Entry.line (entry : Entry) : String :=
  entry.level.label ++ " " ++ entry.text

/-- A node was given a parent, or its parent was cleared. -/
structure Link where
  child : NodeId
  parent : Option NodeId
  deriving DecidableEq

/-- A store, its journal, how many numbers and texts have been made that are not common, and
the parents that were given or cleared, the latest first. -/
structure World where
  store : Store
  journal : List Entry
  made : Nat
  links : List Link
  deriving DecidableEq

def World.empty : World :=
  ⟨.empty, [], 0, []⟩

/-- The world once a node has been given a parent, or none. -/
def World.link (w : World) (child : NodeId) (parent : Option NodeId) : World :=
  { w with store := w.store.setParent child parent, links := ⟨child, parent⟩ :: w.links }

@[simp] theorem World.store_link (w : World) (child : NodeId) (parent : Option NodeId) :
    (w.link child parent).store = w.store.setParent child parent := rfl

/-- Nodes are given one parent after the other, whatever else is done that does not change any
node. Those among them have it, and the others are as before. -/
theorem World.node_foldl_of_link {g : World → NodeId → World} {parent : Option NodeId}
    (node : ∀ w n id, (g w n).store.node id = (w.link n parent).store.node id)
    (size : ∀ w n, (g w n).store.nodes.size = w.store.nodes.size)
    {nodes : List NodeId} {w : World} {id : NodeId}
    (h : id ∈ nodes → id.index < w.store.nodes.size) :
    (nodes.foldl g w).store.node id =
      if id ∈ nodes then (w.store.node id).setParent parent else w.store.node id := by
  induction nodes generalizing w with
  | nil => rfl
  | cons n nodes ih =>
      rw [List.foldl_cons, ih fun mem => by rw [size]; exact h (by simp [mem]), node, store_link]
      by_cases same : id = n
      · subst same
        rw [w.store.node_setParent_self _ (h (by simp))]
        simp
      · rw [w.store.node_setParent_of_ne _ same]
        simp [same]

abbrev Action := EStateM Fault World

namespace Action

theorem bind_of_ok {α β : Type} {act : Action α} {f : α → Action β} {w w' : World} {a : α}
    (h : act w = .ok a w') : (act >>= f) w = f a w' := by
  change EStateM.bind act f w = _
  rw [EStateM.bind, h]

theorem bind_of_error {α β : Type} {act : Action α} {f : α → Action β} {w w' : World}
    {fault : Fault} (h : act w = .error fault w') : (act >>= f) w = .error fault w' := by
  change EStateM.bind act f w = _
  rw [EStateM.bind, h]

/-- Of two actions one after the other the first one fails, or it is done and the second one
fails. -/
theorem error_of_bind {α β : Type} {act : Action α} {f : α → Action β} {w w' : World}
    {fault : Fault} (h : (act >>= f) w = .error fault w') :
    act w = .error fault w' ∨ ∃ a w₁, act w = .ok a w₁ ∧ f a w₁ = .error fault w' := by
  cases hact : act w with
  | ok a w₁ =>
      rw [bind_of_ok hact] at h
      exact .inr ⟨a, w₁, rfl, h⟩
  | error fault' w₁ =>
      rw [bind_of_error hact] at h
      cases h
      exact .inl rfl

theorem ok_of_bind {α β : Type} {act : Action α} {f : α → Action β} {w w' : World} {b : β}
    (h : (act >>= f) w = .ok b w') : ∃ a w₁, act w = .ok a w₁ ∧ f a w₁ = .ok b w' := by
  cases hact : act w with
  | ok a w₁ =>
      rw [bind_of_ok hact] at h
      exact ⟨a, w₁, rfl, h⟩
  | error fault w₁ =>
      rw [bind_of_error hact] at h
      cases h

def store : Action Store :=
  return (← get).store

theorem store_eq (w : World) : store w = .ok w.store w := rfl

def modifyStore (f : Store → Store) : Action Unit :=
  modify fun w => { w with store := f w.store }

def record (level : Level) (text : String) : Action Unit :=
  modify fun w => { w with journal := w.journal ++ [⟨level, text⟩] }

theorem record_eq (level : Level) (text : String) (w : World) :
    record level text w = .ok () { w with journal := w.journal ++ [⟨level, text⟩] } := rfl

def ofExcept {α : Type} : Except Fault α → Action α
  | .ok a => pure a
  | .error fault => throw fault

/-- Evaluate something that depends on the store without changing it. -/
def query {α : Type} (f : Store → Except Fault α) : Action α := do
  ofExcept (f (← store))

def newNode (shape : Shape) : Action NodeId := do
  let id := (← store).nextNode
  modifyStore (·.addNode shape)
  return id

theorem newNode_eq (shape : Shape) (w : World) :
    newNode shape w = .ok w.store.nextNode { w with store := w.store.addNode shape } := rfl

def newList (items : List Value) : Action ListId := do
  let id := (← store).nextList
  modifyStore (·.addList items)
  return id

/-- The origin of a number or a text that is made now. -/
def newOrigin (isCommon : Bool) : Action Origin := do
  if isCommon then return .common
  let index := (← get).made
  modify fun w => { w with made := index + 1 }
  return .own index

def newInt (n : Int) : Action Value :=
  return .int n (← newOrigin (Value.isCommonInt n))

def newReal (x : Binary64) : Action Value :=
  return .real x (← newOrigin false)

def newText (s : String) : Action Value :=
  return .text s (← newOrigin (Value.isCommonText s))

/-- The one way in which parents change before they are lost. -/
def setParent (child : NodeId) (parent : Option NodeId) : Action Unit :=
  modify fun w => w.link child parent

/-- Fail because a value has no member of the given name. -/
def lacks {α : Type} (v : Value) (member : String) : Action α := do
  throw (.lacks ((← store).typeName v) member)

/-- Fail because a value does not carry out an operation. -/
def refuse {α : Type} (v : Value) (member : String) : Action α := do
  throw ((← store).refusal v member)

/-- Look up an operation without carrying it out. -/
def seek (v : Value) (member : String) : Action Unit := do
  if (← store).offers v member then return () else lacks v member

/-- Make sure that no attribute of a node stands in the place of one of its operations. -/
def expectOwn (id : NodeId) (member : String) : Action Unit := do
  if (((← store).node id).override? member).isSome then refuse (.node id) member
  else return ()

theorem expectOwn_of_some {w : World} {id : NodeId} {member : String} {v : Value}
    (h : (w.store.node id).override? member = some v) :
    expectOwn id member w = .error (w.store.refusal (.node id) member) w := by
  change (if ((w.store.node id).override? member).isSome then _ else _ : Action Unit) w = _
  rw [h]
  rfl

theorem expectOwn_of_none {w : World} {id : NodeId} {member : String}
    (h : (w.store.node id).override? member = none) : expectOwn id member w = .ok () w := by
  change (if ((w.store.node id).override? member).isSome then _ else _ : Action Unit) w = _
  rw [h]
  rfl

end Action
end ScriptGraph
