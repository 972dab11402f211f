import ScriptGraph.Fixture.Directory
import ScriptGraph.Fixture.Verdict

/-!
Running the fixtures of a directory. Each fixture is a trial of its own; trials go
on in order of names until one breaks off the run, or fails when the run is to
stop at the first failure.
-/

namespace ScriptGraph

structure RunOptions where
  verbose : Bool
  failFast : Bool
  deriving DecidableEq

/-- One fixture: what it added to the journal, what was printed, the verdict unless the trial
broke off the run, and the settings that it left. -/
structure Trial where
  log : List Entry
  output : String
  verdict : Except Fault Verdict
  settings : Settings

/-- A whole run. The exit code is missing if the run was broken off. -/
structure RunReport where
  exit : Except Fault Nat
  output : String
  log : List Entry
  suite : Suite

/-- A run that was broken off before anything was tried. -/
def RunReport.broken (fault : Fault) : RunReport :=
  ⟨.error fault, "", [], ⟨[]⟩⟩

namespace Directory

/-- Entries for verbose runs only. -/
def details (options : RunOptions) (texts : List String) : List Entry :=
  if options.verbose then texts.map (⟨.debug, ·⟩) else []

/-- Build a fixture, which fails if it does not say how. -/
def buildFixture (stem : String) (settings : Settings) : Option Build → Attempt × Settings
  | some build => build settings
  | none => (⟨[], .error (.ofFault (.noBuilder stem))⟩, settings)

/-- The verdict on a fixture that could not be built. What was raised is written to the journal
first. -/
def reject (stem expected : String) (raised : Raised) : List Entry × Except Fault Verdict :=
  match raised.text with
  | .ok text =>
    ([⟨.error, "Building " ++ stem ++ " failed: " ++ text⟩],
      .ok ⟨stem, false, expected, .text "", raised.label ++ ": " ++ text⟩)
  | .error fault => ([], .error fault)

/-- The verdict on a rendering that was completed. A mismatch is printed in verbose runs,
which fails if the rendering cannot be written out. -/
def compare (options : RunOptions) (stem expected : String) (rendered : Rendered) :
    String × Except Fault Verdict :=
  match rendered.equals expected with
  | .error fault => ("", .error fault)
  | .ok true => ("", .ok ⟨stem, true, expected, rendered.snapshot, ""⟩)
  | .ok false =>
    let verdict : Verdict := ⟨stem, false, expected, rendered.snapshot, "Output mismatch"⟩
    if options.verbose then
      let dump := "---- expected ----\n" ++ expected ++ "\n---- actual ----\n"
      match rendered.written with
      | .ok text => (dump ++ text ++ "\n", .ok verdict)
      | .error fault => (dump, .error fault)
    else ("", .ok verdict)

/-- Try one fixture. The expected text is read before anything is built. -/
def trial (d : Directory) (options : RunOptions) (settings : Settings) (name stem : String) :
    Trial :=
  let expectedName := stem ++ ".expected.txt"
  let expectedPath := (d.location.child expectedName).text
  let intro := details options
    ["Fixture file: " ++ (d.location.child name).text, "Expected file: " ++ expectedPath]
  if d.isOutOfReach expectedName then ⟨intro, "", .error .pathTooLong, settings⟩
  else
    match d.data? expectedName with
    | none =>
      ⟨intro, "", .ok ⟨stem, false, "", .text "", "Missing expected file: " ++ expectedPath⟩,
        settings⟩
    | some data =>
      match expected? data with
      | none => ⟨intro, "", .error .undecodable, settings⟩
      | some expected =>
        match buildFixture stem settings (d.build? name) with
        | (attempt, left) =>
          let noted := intro ++ attempt.journal.filter (·.level ≠ .debug)
          match attempt.outcome with
          | .error raised =>
            match reject stem expected raised with
            | (entries, verdict) => ⟨noted ++ entries, "", verdict, left⟩
          | .ok rendered =>
            match compare options stem expected rendered with
            | (output, verdict) => ⟨noted, output, verdict, left⟩

end Directory

namespace Trial

/-- Whether the run ends early after this trial because it failed. -/
def stops (options : RunOptions) (t : Trial) : Bool :=
  match t.verdict with
  | .ok verdict => !verdict.passed && options.failFast
  | .error _ => false

/-- What the trial prints, the line of its verdict last. -/
def printed (t : Trial) : String :=
  match t.verdict with
  | .ok verdict => t.output ++ verdict.line ++ "\n"
  | .error _ => t.output

def logged (options : RunOptions) (t : Trial) : List Entry :=
  if t.stops options then
    t.log ++ [⟨.info, "Fail-fast enabled, stopping after first failure"⟩]
  else t.log

def fault? (t : Trial) : Option Fault :=
  match t.verdict with
  | .ok _ => none
  | .error fault => some fault

def verdict? (t : Trial) : Option Verdict :=
  t.verdict.toOption

end Trial

namespace Directory

/-- The trials of a run: all fixtures in order, or up to the one that ends it. Each finds the
settings that the one before it left. -/
def trials (d : Directory) (options : RunOptions) : Settings → List String → List Trial
  | _, [] => []
  | settings, name :: names =>
    match stem? name with
    | none => trials d options settings names
    | some stem =>
      let t := d.trial options settings name stem
      if t.stops options || t.fault?.isSome then [t] else t :: trials d options t.settings names

/-- A run that found nothing to try. -/
def refusal (reason : String) : RunReport :=
  ⟨.ok 1, "", [⟨.error, "Fixture discovery failed: " ++ reason⟩], ⟨[]⟩⟩

def conclude (options : RunOptions) (count : Nat) (trials : List Trial) : RunReport :=
  let suite : Suite := ⟨trials.filterMap Trial.verdict?⟩
  let log := details options ["Discovered " ++ count.repr ++ " fixture files"] ++
    trials.flatMap (Trial.logged options)
  let output := String.join (trials.map Trial.printed)
  match trials.findSome? Trial.fault? with
  | some fault => ⟨.error fault, output, log, suite⟩
  | none => ⟨.ok (if suite.failedCount = 0 then 0 else 1), output ++ suite.summary, log, suite⟩

/-- Run the fixtures found at a resolved path, under the settings that are there at first.
Standard output takes whatever text is printed. -/
def runUnder (d : Directory) (settings : Settings) (options : RunOptions) (target : Path) :
    RunReport :=
  match d.place target with
  | .unreachable => .broken .pathTooLong
  | .absent => refusal ("Fixtures directory not found: " ++ target.text)
  | .file | .above => refusal ("No fixtures found in " ++ target.text)
  | .directory =>
    match d.fixtures with
    | [] => refusal ("No fixtures found in " ++ target.text)
    | names => conclude options names.length (d.trials options settings names)

/-- Run the fixtures under the default settings. -/
def run (d : Directory) (options : RunOptions) (target : Path) : RunReport :=
  d.runUnder .default options target

end Directory
end ScriptGraph
