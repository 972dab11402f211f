import ScriptGraph.Session.Term

/-!
How fixtures are built. The library's own actions are one way to build; a fixture may
as well do something else, so what it raises and what it gives are known only by how
they behave when they are compared and written out.
-/

namespace ScriptGraph

/-- What a build raises: its class and its text, unless the text cannot be had. -/
structure Raised where
  label : String
  text : Except Fault String

def Raised.ofFault (fault : Fault) : Raised :=
  ⟨fault.label, .ok fault.message⟩

/-- What a build gives once it is rendered. It need not be a text. -/
structure Rendered where
  /-- Whether it equals a text, unless the comparison fails. -/
  equals : String → Except Fault Bool
  written : Except Fault String
  snapshot : Snapshot

namespace Rendered

def ofText (actual : String) : Rendered :=
  ⟨fun expected => .ok (actual = expected), .ok actual, .text actual⟩

/-- A value that the library rendered. Only a text equals one. -/
def ofValue (store : Store) (settings : Settings) : Value → Rendered
  | .text actual _ => ofText actual
  | v =>
    ⟨fun _ => .ok false, store.textOf settings v, (store.snapshot .empty v).toOption.getD .null⟩

end Rendered

/-- What came of building and rendering a fixture. -/
structure Attempt where
  journal : List Entry
  outcome : Except Raised Rendered

/-- A build under the settings that it finds, with the settings that it leaves to later ones.
It makes its own nodes, so the settings are all that builds share. -/
def Build : Type :=
  Settings → Attempt × Settings

/-- Build and render with the library. No action changes the settings. -/
def Build.ofAction (build : Action Value) : Build := fun settings =>
  match build.produce settings with
  | (.ok v, w) => (⟨w.journal, .ok (.ofValue w.store settings v)⟩, settings)
  | (.error failure, w) => (⟨w.journal, .error (.ofFault failure.2)⟩, settings)

namespace Build
variable {settings : Settings} {build : Action Value} {actual : String} {origin : Origin}
variable {w : World}

theorem ofAction_settings (settings : Settings) (build : Action Value) :
    (ofAction build settings).2 = settings := by
  unfold ofAction
  split <;> rfl

/-- What the library rendered to a text compares as that text. -/
theorem ofAction_text (renders : build.produce settings = (.ok (.text actual origin), w)) :
    (ofAction build settings).1.outcome = .ok (.ofText actual) := by
  simp only [ofAction, renders]
  rfl

end Build
end ScriptGraph
