import ScriptGraph.Operand
import ScriptGraph.Text.Lines

/-!
Settings of the rendering. Both may hold any value; a wrong one shows only where
the text that depends on it is needed.
-/

namespace ScriptGraph

/-- Indent a text by a width. The width is examined first: its sign, then its size, then
whether there is memory for so many spaces. -/
def indentValue (memory : Memory) (store : Store) (text width : Value) : Except Fault String := do
  checkWidth width
  let count ← repeatCount memory width
  match text with
  | .text t _ => .ok (indentText count t)
  | v => .error (store.refusal v "split")

/-- The two settings that count, whatever else was set under other names, and the memory that
rendering may use. -/
structure Settings where
  indentWidth : Value
  directive : Value
  extras : List (String × Value)
  memory : Memory
  deriving DecidableEq

namespace Settings

def default : Settings :=
  ⟨.int 4, .text "\"use strict\"", [], .standard⟩

/-- The text between two declarators. Unlike indentation it takes a negative width as none. -/
def separator (settings : Settings) : Except Fault String := do
  let count ← repeatCount settings.memory settings.indentWidth
  return ",\n" ++ spaces count

/-- The opening of a strict program: the directive and a blank line. -/
def opening (store : Store) (settings : Settings) : Except Fault String := do
  return (← store.expectStart settings.directive) ++ "\n\n"

end Settings
end ScriptGraph
