import ScriptGraph.Fault
import ScriptGraph.Number.Shortest
import ScriptGraph.Store

/-!
Values as operands: what an operation needs of a value, or why the value is not
fit for it.
-/

namespace ScriptGraph

/-- Whether an integer fits in 64 bits. -/
def fitsWord (n : Int) : Bool :=
  -Nat.pow 2 63 ≤ n ∧ n < Nat.pow 2 63

/-- The memory for texts: how many characters a run of spaces may have, or that there is no
such bound. -/
structure Memory where
  longest : Option Nat
  deriving DecidableEq

namespace Memory

def unbounded : Memory :=
  ⟨none⟩

/-- 32 GiB, at a byte for each space. -/
def standard : Memory :=
  ⟨some (Nat.pow 2 35)⟩

def holds (memory : Memory) (count : Nat) : Bool :=
  match memory.longest with
  | none => true
  | some longest => count ≤ longest

theorem holds_of_le (memory : Memory) {count more : Nat} (h : memory.holds more)
    (hle : count ≤ more) : memory.holds count := by
  cases hl : memory.longest with
  | none => simp [holds, hl]
  | some longest =>
    simp only [holds, hl, decide_eq_true_eq] at h ⊢
    exact Nat.le_trans hle h

end Memory

/-- How often to repeat a space. Negative counts repeat nothing; a count has to fit in 64 bits,
and what it asks for in the memory. -/
def repeatCount (memory : Memory) (v : Value) : Except Fault Nat :=
  match v.integer? with
  | none => .error .notCount
  | some n =>
    if !fitsWord n then .error .tooLarge
    else if memory.holds n.toNat then .ok n.toNat
    else .error .noMemory

/-- Accept a width that is not below zero. Any number can be compared with zero. -/
def checkWidth (width : Value) : Except Fault Unit :=
  match width, width.integer? with
  | .real x _, _ => if x.belowZero then .error (.negativeWidth x.text) else .ok ()
  | _, some n => if n < 0 then .error (.negativeWidth n.repr) else .ok ()
  | _, none => .error .notOrdered

namespace Store

/-- The values a loop visits: the items of a list, the characters of a text. -/
def iterate (s : Store) : Value → Except Fault (List Value)
  | .list id => .ok (s.items id)
  | .text t _ => .ok (Value.characters t)
  | v => .error (.notIterable (s.typeName v))

/-- A text to add to another one. -/
def expectText (s : Store) : Value → Except Fault String
  | .text t _ => .ok t
  | v => .error (.notText (s.typeName v))

/-- A text that another one is added to. -/
def expectStart (s : Store) : Value → Except Fault String
  | .text t _ => .ok t
  | .list _ => .error .notList
  | v => .error (.notAddable (s.typeName v))

/-- A text that a node is written as. -/
def expectWritten (s : Store) : Value → Except Fault String
  | .text t _ => .ok t
  | v => .error (.notWritten (s.typeName v))

/-- The values to join to one text: the items of a list, the characters of a text. -/
def pieces (s : Store) : Value → Except Fault (List Value)
  | .list id => .ok (s.items id)
  | .text t _ => .ok (Value.characters t)
  | .null | .bool _ | .int .. | .real .. | .node _ => .error .notJoinable

/-- Texts to join, counted from `position`. -/
def expectPieces (s : Store) (position : Nat) : List Value → Except Fault (List String)
  | [] => .ok []
  | .text t _ :: vs => do return t :: (← s.expectPieces (position + 1) vs)
  | v :: _ => .error (.notPiece position (s.typeName v))

end Store
end ScriptGraph
