import ScriptGraph.Fixture.Directory

/-!
The fixtures that come with the program, each with the text it has to render to.
-/

namespace ScriptGraph
namespace Builtin

open ScriptGraph.Action (assemble newList push)

def listOf (nodes : List NodeId) : Action Value :=
  return .list (← newList (nodes.map .node))

def programOf (strict : Bool) : Action Value := do
  return .node (← assemble (.program (.bool strict) (← listOf [])))

def blockOf (nodes : List NodeId) : Action Value := do
  return .node (← assemble (.block (← listOf nodes)))

def declare (declarators : List NodeId) : Action NodeId := do
  assemble (.declaration (← listOf declarators))

/-- A strict program whose condition and initial value are the same node. -/
def strictConditional : Action Value := do
  let program ← programOf true
  let flag ← assemble (.boolean (.bool true))
  let x ← assemble (.declarator (.text "x") (.node flag))
  let _ ← push program [.node (← declare [x])]
  let body ← blockOf [← assemble .empty]
  let _ ← push program [.node (← assemble (.conditional (.node flag) body .null))]
  return program

/-- A group of two labels and a default group. -/
def switchGroups : Action Value := do
  let program ← programOf false
  let subject ← assemble (.boolean (.bool true))
  let labels := Value.list (← newList [.text "1", .text "2"])
  let labelled ← assemble (.caseGroup labels (← listOf [← assemble .empty]))
  let inner ← assemble (.block (← listOf [← assemble .empty]))
  let rest ← assemble (.caseGroup (← listOf []) (← listOf [inner]))
  let _ ← Action.build ⟨.switch (.node subject) (← listOf [labelled, rest]), program⟩
  return program

/-- A named function with a conditional in it, then an anonymous one. -/
def functions : Action Value := do
  let program ← programOf false
  let flag ← assemble (.boolean (.bool false))
  let y ← assemble (.declarator (.text "y") .null)
  let check ← assemble
    (.conditional (.node flag) (← blockOf [← declare [y]]) (← blockOf []))
  let params := Value.list (← newList [.text "a", .text "b"])
  let named ← assemble (.function (.text "check") params (← blockOf [check]))
  let _ ← push program [.node named]
  let _ ← push program [.node (← assemble (.function (.text "") (← listOf []) .null))]
  return program

/-- Several declarators, some without an initial value. -/
def declaratorList : Action Value := do
  let program ← programOf true
  let yes ← assemble (.boolean (.bool true))
  let a ← assemble (.declarator (.text "a") (.node yes))
  let b ← assemble (.declarator (.text "b") .null)
  let no ← assemble (.boolean (.bool false))
  let c ← assemble (.declarator (.text "c") (.node no))
  let _ ← Action.build ⟨.declaration (← listOf [a, b, c]), program⟩
  return program

/-- Names, builders and expected texts. -/
def catalogue : List (String × Action Value × String) :=
  [("t01_strict_conditional", strictConditional,
      "\"use strict\"\n\nvar x = true;if (true) \x7b\n    ;\n\x7d\n"),
    ("t02_switch_groups", switchGroups,
      "switch (true) \x7b\n    case 1:\n    case 2:\n        ;\n    default:\n        \x7b\n" ++
      "            ;\n        \x7d\n\x7d\n"),
    ("t03_functions", functions,
      "function check(a, b) \x7b\n    if (false) \x7b\n        var y;\n    \x7delse \x7b\n" ++
      "    \x7d\n\x7dfunction () \x7b\x7d\n"),
    ("t04_declarator_list", declaratorList,
      "\"use strict\"\n\nvar a = true,\n    b,\n    c = false;\n")]

def builder? (stem : String) : Option (Action Value) :=
  (catalogue.lookup stem).map Prod.fst

/-- The fixtures as a directory at a given place. -/
def directory (location : Path) : Directory :=
  ⟨location, catalogue.flatMap fun (stem, build, expected) =>
    [⟨stem ++ ".py", .builder build⟩, ⟨stem ++ ".expected.txt", .bytes expected.toUTF8⟩]⟩

end Builtin
end ScriptGraph
