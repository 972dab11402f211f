import ScriptGraph.Describe
import ScriptGraph.Settings

/-!
Source text of a node. A shape is rendered from the renderings of the nodes it
holds, so the recursion over the graph is left open here and closed by a bound on
its depth: a path without repetition is no longer than the number of nodes, hence
a rendering that goes deeper has come back to a node it is still rendering.

The rendering of a declarator without an initial value is its name, whatever value
that is. All others are texts.
-/

namespace ScriptGraph

namespace Store

/-- The rendering of a value, given that of nodes. -/
def renderValue (s : Store) (render : NodeId → Except Fault Value) : Value → Except Fault Value
  | .node id => render id
  | v => .error (.lacks (s.typeName v) "serialize")

def renderText (s : Store) (render : NodeId → Except Fault Value) (v : Value) :
    Except Fault String := do
  s.expectText (← s.renderValue render v)

/-- A value in the middle of a text: a node is rendered and everything else described,
except that a text stands for itself. -/
def display (s : Store) (render : NodeId → Except Fault Value) : Value → Except Fault String
  | .text t _ => .ok t
  | .node id => do s.expectWritten (← render id)
  | v => .ok (s.describe v)

end Store

namespace Shape

/-- The rendering of a child that stands one level deeper. -/
def renderInner (settings : Settings) (s : Store) (render : NodeId → Except Fault Value)
    (v : Value) : Except Fault String := do
  indentValue settings.memory s (← s.renderValue render v) settings.indentWidth

/-- The lines between the braces; a body that is null has none, not even an empty one. -/
def renderBody (settings : Settings) (s : Store) (render : NodeId → Except Fault Value)
    (body : Value) : Except Fault String := do
  if body = .null then return ""
  let parts ← (← s.iterate body).mapM (renderInner settings s render)
  return "\n" ++ String.join (parts.map (· ++ "\n"))

/-- What a program starts with. -/
def renderOpening (settings : Settings) (s : Store) (strict : Value) : Except Fault String :=
  if s.isTrue strict then settings.opening s else return ""

def renderHead (s : Store) (render : NodeId → Except Fault Value) (label : Value) :
    Except Fault String := do
  return "case " ++ (← s.display render label) ++ ":\n"

/-- The lines ahead of the statements of a group, one for each label. -/
def renderHeads (s : Store) (render : NodeId → Except Fault Value) (labels : Value) :
    Except Fault (List String) := do
  if s.isTrue labels then (← s.iterate labels).mapM (renderHead s render)
  else return ["default:\n"]

def render (settings : Settings) (s : Store) (render : NodeId → Except Fault Value) :
    Shape → Except Fault Value
  | bare => return .text ""
  | program strict elements => do
    let opening ← renderOpening settings s strict
    let parts ← (← s.iterate elements).mapM (s.renderText render)
    return .text (opening ++ String.join parts)
  | empty => return .text ";"
  | boolean value => return .text (if s.isTrue value then "true" else "false")
  | block statements => do
    return .text ("\x7b" ++ (← renderBody settings s render statements) ++ "\x7d")
  | conditional condition consequent alternative => do
    let test ← s.renderText render condition
    let first ← s.renderText render consequent
    if alternative = .null then return .text ("if (" ++ test ++ ") " ++ first)
    let second ← s.renderText render alternative
    return .text ("if (" ++ test ++ ") " ++ first ++ "else " ++ second)
  | caseGroup labels statements => do
    let heads ← renderHeads s render labels
    let parts ← (← s.iterate statements).mapM (renderInner settings s render)
    return .text (String.join heads ++ "\n".intercalate parts)
  | switch discriminant groups => do
    let subject ← s.renderText render discriminant
    let body ← renderBody settings s render groups
    return .text ("switch (" ++ subject ++ ") \x7b" ++ body ++ "\x7d")
  | declarator name initial => do
    if initial = .null then return name
    let name ← s.expectStart name
    return .text (name ++ " = " ++ (← s.renderText render initial))
  | declaration declarators => do
    let parts ← (← s.iterate declarators).mapM (s.renderValue render)
    let separator ← settings.separator
    return .text ("var " ++ separator.intercalate (← s.expectPieces 0 parts) ++ ";")
  | function name params body => do
    let name ← s.expectText name
    let params ← s.expectPieces 0 (← s.pieces params)
    return .text ("function " ++ name ++ "(" ++ ", ".intercalate params ++ ") " ++
      (← s.renderText render body))

end Shape

namespace Store

/-- Rendering to a bounded depth. A node on which an attribute stands in the place of its
rendering has none. -/
def renderWithin (settings : Settings) (s : Store) : Nat → NodeId → Except Fault Value
  | 0, _ => .error .endless
  | depth + 1, id =>
    if ((s.node id).override? "serialize").isSome then .error (s.refusal (.node id) "serialize")
    else (s.shape id).render settings s (renderWithin settings s depth)

def render (settings : Settings) (s : Store) (id : NodeId) : Except Fault Value :=
  s.renderWithin settings (s.nodes.size + 1) id

/-- The text of any value. -/
def textOf (settings : Settings) (s : Store) (v : Value) : Except Fault String :=
  s.display (s.render settings) v

end Store
end ScriptGraph
