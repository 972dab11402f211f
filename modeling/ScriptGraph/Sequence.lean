import ScriptGraph.Operand

/-!
Picking, inserting and deleting by index. An index may be any value; only integers
lead somewhere, and negative ones count from the end.
-/

namespace ScriptGraph
namespace Sequence

/-- The position that an index means in a sequence of the given length. -/
def position? (length : Nat) (index : Int) : Option Nat :=
  if 0 ≤ index ∧ index < length then some index.toNat
  else if index < 0 ∧ -length ≤ index then some (index + length).toNat
  else none

/-- The position that a value means as an index. -/
def locate (indexed : Indexed) (s : Store) (index : Value) (length : Nat) : Except Fault Nat :=
  match index.integer? with
  | none => .error (.notIndex indexed (s.typeName index))
  | some n =>
    match position? length n with
    | some k => .ok k
    | none => .error (if fitsWord n then .outOfRange indexed else .hugeIndex)

/-- The item of a list at an index. -/
def pick (s : Store) (index : Value) (items : List Value) : Except Fault Value := do
  return items.getD (← locate .list s index items.length) .null

/-- The character of a text at an index. -/
def character (s : Store) (index : Value) (text : String) : Except Fault String := do
  let position ← locate .text s index text.length
  return String.ofList ((text.toList.drop position).take 1)

/-- The position to insert at: an index beyond either end means that end. -/
def insertion (length : Nat) (index : Int) : Nat :=
  if index < 0 then (index + length).toNat else min index.toNat length

/-- Insert at an index that has to fit in 64 bits. -/
def insert (s : Store) (index v : Value) (items : List Value) : Except Fault (List Value) :=
  match index.integer? with
  | none => .error (.notInteger (s.typeName index))
  | some n =>
    if fitsWord n then .ok (items.insertIdx (insertion items.length n) v) else .error .tooLarge

def delete (s : Store) (index : Value) (items : List Value) : Except Fault (List Value) := do
  return items.eraseIdx (← locate .list s index items.length)

end Sequence
end ScriptGraph
