import ScriptGraph.Value

/-!
Names of values in a script.
-/

namespace ScriptGraph

/-- What is found under a key is listed with it. -/
theorem mem_of_lookup {α β : Type} [BEq α] [LawfulBEq α] {entries : List (α × β)} {key : α}
    {b : β} (h : entries.lookup key = some b) : (key, b) ∈ entries := by
  obtain ⟨before, after, rfl, -⟩ := List.lookup_eq_some_iff.mp h
  simp

/-- Names bound to values, each name once. -/
structure Bindings where
  entries : List (String × Value)
  deriving DecidableEq

namespace Bindings

def empty : Bindings :=
  ⟨[]⟩

def find? (b : Bindings) (name : String) : Option Value :=
  b.entries.lookup name

def unbind (b : Bindings) (name : String) : Bindings :=
  ⟨b.entries.filter (·.1 ≠ name)⟩

def bind (b : Bindings) (name : String) (v : Value) : Bindings :=
  ⟨(name, v) :: (b.unbind name).entries⟩

def values (b : Bindings) : List Value :=
  b.entries.map Prod.snd

/-- The smaller of two names in the order of code points. -/
def smaller (name : String) : Option String → String
  | none => name
  | some other => if other < name then other else name

/-- The smallest name bound to the value. -/
def nameOf? (b : Bindings) (v : Value) : Option String :=
  b.entries.foldr (fun entry best => if entry.2 = v then some (smaller entry.1 best) else best) none

end Bindings

end ScriptGraph
