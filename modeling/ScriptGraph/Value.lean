import ScriptGraph.Number.Binary64

/-!
Values that nodes hold and scripts pass around. Lists and nodes live in a store
and are named by handles; numbers and texts carry their origin beside their
content. So two values are the same object exactly when they are equal here.
-/

namespace ScriptGraph

structure NodeId where
  index : Nat
  deriving DecidableEq

structure ListId where
  index : Nat
  deriving DecidableEq

/-- Where a number or a text comes from. Common ones are shared wherever they occur; of all
others each one that is made is an object of its own. -/
inductive Origin
  | common
  | own (index : Nat)
  deriving DecidableEq

inductive Value
  | null
  | bool (b : Bool)
  | int (n : Int) (origin : Origin := .common)
  | real (x : Binary64) (origin : Origin := .common)
  | text (s : String) (origin : Origin := .common)
  | list (id : ListId)
  | node (id : NodeId)
  deriving DecidableEq

namespace Value

/-- Truth values count as the integers zero and one. -/
def integer? : Value → Option Int
  | bool b => some (if b then 1 else 0)
  | int n _ => some n
  | null | real .. | text .. | list _ | node _ => none

/-- Whether the value is a text with the given content. -/
def isText (v : Value) (s : String) : Bool :=
  match v with
  | text t _ => t = s
  | null | bool _ | int .. | real .. | list _ | node _ => false

theorem isText_iff {v : Value} {s : String} : v.isText s ↔ ∃ origin, v = text s origin := by
  cases v <;> simp [isText]

/-- The characters of a text, each as a text. -/
def characters (s : String) : List Value :=
  s.toList.map fun c => text (String.singleton c)

/-- Whether the value names something kept in a store. -/
def isHandle : Value → Bool
  | list _ | node _ => true
  | null | bool _ | int .. | real .. | text .. => false

/-- The integers that are common. -/
def isCommonInt (n : Int) : Bool :=
  -5 ≤ n ∧ n ≤ 256

/-- The texts that are common: the empty one, and those of one character among the first 256. -/
def isCommonText (s : String) : Bool :=
  s.length ≤ 1 ∧ s.toList.all fun c => c.toNat < 256

end Value
end ScriptGraph
