import ScriptGraph.Fixture.Launch

/-!
The command line. A directory on disk supplies the expected texts, and a fixture file in it
is built by the builder of its name that comes with the program.
-/

namespace ScriptGraph
namespace Main

/-- The files of a directory. -/
def filesIn (place : Path) : IO (List File) := do
  let mut files : List File := []
  for entry in ← ((← IO.currentDir) / place.text).readDir do
    unless ← entry.path.isDir do
      let data ← IO.FS.readBinFile entry.path
      let build := (Directory.stem? entry.fileName).bind Builtin.builder?
      files := files ++ [⟨entry.fileName, ⟨data, build.map .ofAction⟩⟩]
  return files

/-- Read the directory that a path leads to. If it leads to a file, or nowhere, the last
directory on the path is given instead, with that file if there is one. -/
def load (location : Path) : IO Directory := do
  let here ← IO.currentDir
  if ← (here / location.text).isDir then return ⟨location, ← filesIn location⟩
  for count in (List.range location.components.length).reverse do
    let place : Path := ⟨location.root, location.components.take count⟩
    if ← (here / place.text).isDir then
      let file : File := ⟨String.ofList (location.components.getLast?.getD []), .bytes .empty⟩
      return ⟨place, if ← (here / location.text).pathExists then [file] else []⟩
  return ⟨location, []⟩

/-- Report a run and give its exit code. -/
def finish (report : RunReport) : IO UInt32 := do
  for entry in report.log do
    IO.eprintln entry.line
  IO.print report.output
  match report.exit with
  | .ok code => return code.toUInt32
  | .error fault =>
    IO.eprintln (fault.label ++ ": " ++ fault.message)
    return 1

def run (args : List String) : IO UInt32 := do
  let here := Path.ofString (← IO.currentDir).toString
  match plan args with
  | .error refusal =>
    IO.print refusal.output
    if let some warning := refusal.warning? then IO.eprintln warning
    return refusal.code.toUInt32
  | .ok (options, some path) =>
    match (here.append path).resolve with
    | .error fault => finish (.broken fault)
    | .ok target => finish ((← load target).run options target)
  | .ok (options, none) =>
    let directory := Builtin.directory (here.append (Path.ofString "tests/fixtures"))
    finish (directory.run options directory.location)

end Main
end ScriptGraph

def main (args : List String) : IO UInt32 :=
  ScriptGraph.Main.run args
