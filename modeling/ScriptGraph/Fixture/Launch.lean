import ScriptGraph.CommandLine
import ScriptGraph.Fixture.Builtin
import ScriptGraph.Fixture.Run

/-!
The fixture runner as a whole: what a command line makes it do.
-/

namespace ScriptGraph

/-- What the arguments ask for: how to run, and where unless it is the fixtures that come
with the program. -/
def plan (args : List String) : Except CommandLine.Refusal (RunOptions × Option Path) := do
  let options ← CommandLine.parse args
  return (⟨options.verbose, options.failFast⟩, options.directory.path?)

/-- Carry out what the arguments ask for; a path is looked up in `given`. -/
def launch (builtin given : Directory) (args : List String) :
    Except CommandLine.Refusal RunReport := do
  match ← plan args with
  | (options, some path) =>
    match path.resolve with
    | .ok target => return given.run options target
    | .error fault => return .broken fault
  | (options, none) => return builtin.run options builtin.location

end ScriptGraph
