import ScriptGraph.Alike
import ScriptGraph.Arguments
import ScriptGraph.Describe
import ScriptGraph.Session.Term

/-!
Settings as they are built, changed, compared and reported.
-/

namespace ScriptGraph

/-- Settings with the two texts that depend on them, each of which may be missing for a
reason of its own. -/
structure SettingsReport where
  indentWidth : Snapshot
  directive : Snapshot
  separator : Except Fault String
  opening : Except Fault String

namespace Settings

def signature : Signature :=
  ⟨"Settings", [.optional "indent_width", .optional "strict_directive"]⟩

def ofArguments (args : Arguments) : Except Fault Settings := do
  let assigned ← args.assign signature
  return {
    indentWidth := (assigned.lookup "indent_width").getD default.indentWidth
    directive := (assigned.lookup "strict_directive").getD default.directive
    extras := []
    memory := default.memory }

/-- Change one setting. The texts that depend on settings cannot be set; what is set under
any other name is kept and has no influence. -/
def set (settings : Settings) (field : String) (v : Value) : Except Fault Settings :=
  match field with
  | "indent_width" => .ok { settings with indentWidth := v }
  | "strict_directive" => .ok { settings with directive := v }
  | "declarator_separator" | "strict_prefix" => .error (.readOnly field)
  | _ =>
    match Fault.ofReserved? field with
    | some fault => .error fault
    | none =>
      .ok { settings with extras := (field, v) :: settings.extras.filter (·.1 ≠ field) }

def values (settings : Settings) : List Value :=
  settings.indentWidth :: settings.directive :: settings.extras.map Prod.snd

def report (settings : Settings) (store : Store) (names : Bindings) :
    Except Fault SettingsReport := do
  return {
    indentWidth := ← store.snapshot names settings.indentWidth
    directive := ← store.snapshot names settings.directive
    separator := settings.separator
    opening := settings.opening store }

def describe (settings : Settings) (store : Store) : String :=
  "Settings(indent_width=" ++ store.describe settings.indentWidth ++ ", strict_directive=" ++
    store.describe settings.directive ++ ")"

end Settings

/-- Everything there is to say about settings built from arguments. -/
structure SettingsReview where
  report : SettingsReport
  description : String
  isDefault : Bool
  /-- Equality with the other settings, if there are any. -/
  equalsOther : Option Bool

namespace SettingsReview

/-- Build settings from arguments, and others to compare with from arguments by position. -/
def ofTerms (args : List Term) (names : List String) (values : List Term)
    (other : Option (List Term)) : Action SettingsReview := do
  let positional ← Term.evalAll .empty [] args
  let named ← Term.evalAll .empty positional values
  let settings ← Action.ofExcept (Settings.ofArguments ⟨positional, names.zip named⟩)
  let equalsOther ← other.mapM fun other => do
    let others ← Term.evalAll .empty settings.values other
    let second ← Action.ofExcept (Settings.ofArguments ⟨others, []⟩)
    Action.query fun s => settings.alike s second
  Action.query fun s => do
    return {
      report := ← settings.report s .empty
      description := settings.describe s
      isDefault := ← settings.alike s .default
      equalsOther }

end SettingsReview

/-- Indent one value by another, in the memory that rendering may use by default. -/
def indentTerms (text width : Term) : Action String := do
  let text ← text.eval .empty []
  let width ← width.eval .empty [text]
  Action.query fun s => indentValue Settings.default.memory s text width

end ScriptGraph
