import ScriptGraph.Value

/-!
Nodes of a script graph. A node's shape says what it is and what it holds; which
values stand in its fields is not restricted, so that a graph under construction,
or a wrongly built one, can be represented and diagnosed when it is rendered.
-/

namespace ScriptGraph

inductive Kind
  | bare
  | program
  | empty
  | boolean
  | block
  | conditional
  | caseGroup
  | switch
  | declarator
  | declaration
  | function
  deriving DecidableEq

namespace Kind

def all : List Kind :=
  [bare, program, empty, boolean, block, conditional, caseGroup, switch, declarator, declaration,
    function]

/-- The name a kind is reported by. -/
def label : Kind → String
  | bare => "Node"
  | program => "Module"
  | empty => "EmptyStatement"
  | boolean => "BooleanLiteral"
  | block => "BlockStatement"
  | conditional => "ConditionalStatement"
  | caseGroup => "SwitchMember"
  | switch => "SwitchStatement"
  | declarator => "VariableDeclarator"
  | declaration => "VariableStatement"
  | function => "FunctionNode"

def ofLabel? (label : String) : Option Kind :=
  all.find? fun kind => kind.label = label

/-- Whether a node of this kind can be registered in a program as it is built. -/
def isRegistrable : Kind → Bool
  | empty | boolean | block | conditional | switch | declaration | function => true
  | bare | program | caseGroup | declarator => false

end Kind

inductive Shape
  | bare
  /-- A whole script: whether it opens with the strict directive, and its top level. -/
  | program (strict elements : Value)
  | empty
  | boolean (value : Value)
  | block (statements : Value)
  | conditional (condition consequent alternative : Value)
  /-- Labels of a switch that share the statements after them; no labels is the default. -/
  | caseGroup (labels statements : Value)
  | switch (discriminant groups : Value)
  | declarator (name initial : Value)
  | declaration (declarators : Value)
  | function (name params body : Value)
  deriving DecidableEq

namespace Shape

def kind : Shape → Kind
  | bare => .bare
  | program .. => .program
  | empty => .empty
  | boolean .. => .boolean
  | block .. => .block
  | conditional .. => .conditional
  | caseGroup .. => .caseGroup
  | switch .. => .switch
  | declarator .. => .declarator
  | declaration .. => .declaration
  | function .. => .function

/-- The fields in order, under the names they are read, written and described by. -/
def fields : Shape → List (String × Value)
  | bare | empty => []
  | program strict elements => [("use_strict", strict), ("elements", elements)]
  | boolean value => [("value", value)]
  | block statements => [("statements", statements)]
  | conditional condition consequent alternative =>
    [("condition", condition), ("then_statement", consequent), ("else_statement", alternative)]
  | caseGroup labels statements => [("labels", labels), ("statements", statements)]
  | switch discriminant groups => [("discriminant", discriminant), ("members", groups)]
  | declarator name initial => [("name", name), ("initializer", initial)]
  | declaration declarators => [("declarators", declarators)]
  | function name params body => [("name", name), ("params", params), ("body", body)]

/-- The shape with one field replaced, if it has a field of that name. -/
def setField? (shape : Shape) (field : String) (v : Value) : Option Shape :=
  match shape, field with
  | program _ elements, "use_strict" => some (program v elements)
  | program strict _, "elements" => some (program strict v)
  | boolean _, "value" => some (boolean v)
  | block _, "statements" => some (block v)
  | conditional _ consequent alternative, "condition" =>
    some (conditional v consequent alternative)
  | conditional condition _ alternative, "then_statement" =>
    some (conditional condition v alternative)
  | conditional condition consequent _, "else_statement" =>
    some (conditional condition consequent v)
  | caseGroup _ statements, "labels" => some (caseGroup v statements)
  | caseGroup labels _, "statements" => some (caseGroup labels v)
  | switch _ groups, "discriminant" => some (switch v groups)
  | switch discriminant _, "members" => some (switch discriminant v)
  | declarator _ initial, "name" => some (declarator v initial)
  | declarator name _, "initializer" => some (declarator name v)
  | declaration _, "declarators" => some (declaration v)
  | function _ params body, "name" => some (function v params body)
  | function name _ body, "params" => some (function name v body)
  | function name params _, "body" => some (function name params v)
  | _, _ => none

end Shape

/-- A node: its shape, the node that last took it in, and attributes that were set on
it without being fields of its shape. -/
structure Node where
  shape : Shape
  parent : Option NodeId
  extras : List (String × Value)
  deriving DecidableEq

namespace Node

def ofShape (shape : Shape) : Node :=
  ⟨shape, none, []⟩

def kind (n : Node) : Kind :=
  n.shape.kind

/-- The values a node keeps hold of. Its parent is not one of them. -/
def held (n : Node) : List Value :=
  (n.shape.fields ++ n.extras).map Prod.snd

/-- The attribute under which a node keeps the link to its parent. -/
def linkName : String :=
  "_parent_ref"

/-- The attribute, if one was set, that stands in the place of an operation. -/
def override? (n : Node) (member : String) : Option Value :=
  n.extras.lookup member

/-- A stored attribute. The program a node was registered in is not stored: it reads as
null on every kind that can be registered. So does the link of a node without a parent. -/
def attribute? (n : Node) (name : String) : Option Value :=
  match (n.shape.fields ++ n.extras).lookup name with
  | some v => some v
  | none =>
    if name = "module" ∧ n.kind.isRegistrable ∨ name = linkName ∧ n.parent = none then
      some .null
    else none

/-- Set or clear the parent. A value that was put in the place of the link goes. -/
def setParent (n : Node) (parent : Option NodeId) : Node :=
  { n with parent, extras := n.extras.filter (·.1 ≠ linkName) }

/-- Parents come and go without an effect on what stands in the place of operations. -/
theorem override?_setParent (n : Node) (parent : Option NodeId) {member : String}
    (h : member ≠ linkName) : (n.setParent parent).override? member = n.override? member := by
  simp only [override?, setParent]
  induction n.extras with
  | nil => rfl
  | cons entry entries ih =>
    obtain ⟨name, v⟩ := entry
    by_cases hl : name = linkName
    · subst hl
      simpa [List.lookup_cons, beq_false_of_ne h] using ih
    · rw [List.filter_cons_of_pos (by simpa using hl)]
      simp only [List.lookup_cons, ih]

theorem override?_setParent_linkName (n : Node) (parent : Option NodeId) :
    (n.setParent parent).override? linkName = none := by
  refine List.lookup_eq_none_iff.mpr fun entry mem => ?_
  have other : entry.1 ≠ linkName := by simpa using (List.mem_filter.mp mem).2
  exact bne_iff_ne.mpr other.symm

@[simp] theorem setParent_setParent (n : Node) (first second : Option NodeId) :
    (n.setParent first).setParent second = n.setParent second := by
  simp [setParent]

def setExtra (n : Node) (name : String) (v : Value) : Node :=
  { n with extras := (name, v) :: n.extras.filter (·.1 ≠ name) }

/-- Set an attribute. To put a value in the place of the link is to forget the parent. -/
def setAttribute (n : Node) (name : String) (v : Value) : Node :=
  match n.shape.setField? name v with
  | some shape => { n with shape }
  | none =>
    if name = linkName then
      if v = .null then n.setParent none else (n.setParent none).setExtra name v
    else n.setExtra name v

end Node
end ScriptGraph
