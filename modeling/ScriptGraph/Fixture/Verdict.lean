import ScriptGraph.Arguments
import ScriptGraph.Session.Term

/-!
Verdicts on fixtures and the summary of a suite.
-/

namespace ScriptGraph

structure Verdict where
  name : String
  passed : Bool
  expected : String
  actual : Snapshot
  message : String

namespace Verdict

def line (v : Verdict) : String :=
  (if v.passed then "[PASS] " else "[FAIL] ") ++ v.name

def signature : Signature :=
  ⟨"FixtureResult", [.required "name", .required "passed", .optional "expected_output",
    .optional "actual_output", .optional "error_message"]⟩

/-- A verdict from named arguments. Texts are taken as they would be written out, and
anything that counts as true is a pass. -/
def ofTerms (names : List String) (values : List Term) : Action Verdict := do
  let vs ← Term.evalAll .empty [] values
  let assigned ← Action.ofExcept (Arguments.assign ⟨[], names.zip vs⟩ signature)
  let argument (name : String) : Value := (assigned.lookup name).getD (.text "")
  let written (name : String) : Action String :=
    Action.query fun s => s.textOf .default (argument name)
  return {
    name := ← written "name"
    passed := (← Action.store).isTrue (argument "passed")
    expected := ← written "expected_output"
    actual := ← Action.query fun s => s.snapshot .empty (argument "actual_output")
    message := ← written "error_message" }

end Verdict

/-- The verdicts of a run, in order. -/
structure Suite where
  verdicts : List Verdict

namespace Suite

def passedCount (suite : Suite) : Nat :=
  suite.verdicts.countP (·.passed)

def failedCount (suite : Suite) : Nat :=
  suite.verdicts.countP (!·.passed)

def rule : String :=
  String.ofList (List.replicate 50 '=')

def failureLine (v : Verdict) : String :=
  "  - " ++ v.name ++ ": " ++ v.message

/-- The lines of the summary; the failures are listed if there are any. -/
def summaryLines (suite : Suite) : List String :=
  ["", rule,
    "Fixture Summary: " ++ suite.passedCount.repr ++ " passed, " ++ suite.failedCount.repr ++
      " failed",
    rule] ++
  if suite.failedCount = 0 then []
  else ["", "Failed fixtures:"] ++ (suite.verdicts.filter (!·.passed)).map failureLine

def summary (suite : Suite) : String :=
  String.join (suite.summaryLines.map (· ++ "\n"))

/-- The counts after each verdict, as they come in. -/
def progress (verdicts : List Verdict) : List (Verdict × Nat × Nat) :=
  (verdicts.zipIdx 1).map fun (v, count) =>
    let suite : Suite := ⟨verdicts.take count⟩
    (v, suite.passedCount, suite.failedCount)

end Suite
end ScriptGraph
