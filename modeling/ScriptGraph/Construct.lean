import ScriptGraph.Arguments
import ScriptGraph.Membership
import ScriptGraph.Operand

/-!
Construction of nodes: arguments are matched with parameters, checked and
completed, the new node takes in its children, and last it is pushed into the
program it is to be registered in. Checks come before anything is stored.
-/

namespace ScriptGraph

namespace Kind

def parameters : Kind → List Parameter
  | bare => []
  | program => [.optional "use_strict", .optional "elements"]
  | empty => [.optional "module"]
  | boolean => [.required "value", .optional "module"]
  | block => [.optional "statements", .optional "module"]
  | conditional =>
    [.required "condition", .optional "then_statement", .optional "else_statement",
      .optional "module"]
  | caseGroup => [.required "labels", .required "statements"]
  | switch => [.required "discriminant", .optional "members", .optional "module"]
  | declarator => [.required "name", .optional "initializer"]
  | declaration => [.required "declarators", .optional "module"]
  | function => [.optional "name", .optional "params", .optional "body", .optional "module"]

def signature (kind : Kind) : Signature :=
  ⟨kind.label, kind.parameters⟩

end Kind

/-- A node to be built, and the program to register it in or null. -/
structure Draft where
  shape : Shape
  owner : Value
  deriving DecidableEq

namespace Draft

/-- The list under a name, or a new empty one if it was left out. -/
def listOrNew (args : List (String × Value)) (name : String) : Action Value := do
  match args.lookup name with
  | some v => return v
  | none => return .list (← Action.newList [])

/-- The draft that arguments under the names of parameters describe. What was left out is
null unless it has a default. -/
def ofArguments (kind : Kind) (args : List (String × Value)) : Action Draft := do
  let arg (name : String) : Value := (args.lookup name).getD .null
  match kind with
  | .bare => return ⟨.bare, .null⟩
  | .program =>
    return ⟨.program ((args.lookup "use_strict").getD (.bool true)) (← listOrNew args "elements"),
      .null⟩
  | .empty => return ⟨.empty, arg "module"⟩
  | .boolean => return ⟨.boolean (arg "value"), arg "module"⟩
  | .block => return ⟨.block (arg "statements"), arg "module"⟩
  | .conditional =>
    return ⟨.conditional (arg "condition") (arg "then_statement") (arg "else_statement"),
      arg "module"⟩
  | .caseGroup => return ⟨.caseGroup (arg "labels") (arg "statements"), .null⟩
  | .switch => return ⟨.switch (arg "discriminant") (arg "members"), arg "module"⟩
  | .declarator => return ⟨.declarator (arg "name") (arg "initializer"), .null⟩
  | .declaration => return ⟨.declaration (arg "declarators"), arg "module"⟩
  | .function =>
    return ⟨.function ((args.lookup "name").getD (.text "")) (← listOrNew args "params")
      (arg "body"), arg "module"⟩

end Draft

/-- Children of a node as its construction looks at them. -/
inductive Slot
  | one (v : Value)
  | every (v : Value)
  /-- Of these only the nodes are children. -/
  | nodesAmong (v : Value)
  deriving DecidableEq

namespace Shape

/-- The children of a shape, in the order they are taken in. A body that is null has none. -/
def slots : Shape → List Slot
  | bare | empty | boolean _ => []
  | program _ elements => [.every elements]
  | block statements => if statements = .null then [] else [.every statements]
  | conditional condition consequent alternative =>
    [.one condition, .one consequent, .one alternative]
  | caseGroup labels statements => [.nodesAmong labels, .every statements]
  | switch discriminant groups =>
    .one discriminant :: if groups = .null then [] else [.every groups]
  | declarator _ initial => [.one initial]
  | declaration declarators => [.every declarators]
  | function _ _ body => [.one body]

/-- Check a shape and complete it: a missing branch is an empty statement, a missing body a
block without one. A declaration of nothing is noted. -/
def complete : Shape → Action Shape
  | boolean value => do
    match value with
    | .bool _ => return boolean value
    | _ => throw (.notBoolean ((← Action.store).typeName value))
  | conditional condition consequent alternative => do
    match condition with
    | .node _ =>
      if consequent = .null then
        return conditional condition (.node (← Action.newNode empty)) alternative
      else return conditional condition consequent alternative
    | _ => throw .notCondition
  | declaration declarators => do
    if !(← Action.store).isTrue declarators then
      Action.record .warning "VariableStatement created without declarators"
    return declaration declarators
  | function name params body => do
    let params ← if params = .null then .list <$> Action.newList [] else pure params
    let body ← if body = .null then .node <$> Action.newNode (block .null) else pure body
    return function (if name = .null then .text "" else name) params body
  | shape => return shape

end Shape

namespace Action

def adoptSlot (parent : NodeId) : Slot → Action Unit
  | .one v => adopt parent v
  | .every v => do adoptAll parent (← query (·.iterate v))
  | .nodesAmong v => do
    let vs ← query (·.iterate v)
    adoptAll parent (vs.filter fun v => v matches .node _)

def adoptSlots (parent : NodeId) : List Slot → Action Unit
  | [] => return ()
  | slot :: slots => do
    adoptSlot parent slot
    adoptSlots parent slots

/-- Build a node of the given shape without registering it. -/
def assemble (shape : Shape) : Action NodeId := do
  let shape ← shape.complete
  let id ← newNode shape
  adoptSlots id shape.slots
  return id

/-- Push a new node into its program, if there is one. -/
def register (owner : Value) (id : NodeId) : Action Unit :=
  if owner = .null then return ()
  else do
    let _ ← push owner [.node id]
    return ()

def build (draft : Draft) : Action NodeId := do
  let id ← assemble draft.shape
  register draft.owner id
  return id

/-- Construct a node of a kind from arguments. -/
def construct (kind : Kind) (args : Arguments) : Action NodeId := do
  let assigned ← ofExcept (args.assign kind.signature)
  build (← Draft.ofArguments kind assigned)

end Action
end ScriptGraph
