import ScriptGraph.Settings

/-!
Equality of values as scripts test it: numbers by size whatever their type, lists
item by item, nodes by identity.
-/

namespace ScriptGraph

namespace Value

/-- Equality of values that are not two lists. Where a number or a text comes from does not
matter. -/
def alike : Value → Value → Bool
  | text s _, v => v.isText s
  | real x _, real y _ => x.sameNumber y
  | real x _, v | v, real x _ =>
    match v.integer? with
    | some n => x.sameInteger n
    | none => false
  | u, v =>
    match u.integer?, v.integer? with
    | some m, some n => m = n
    | _, _ => u = v

end Value

namespace Store

/-- Compare item by item, up to the first difference. -/
def allAlike (test : Value → Value → Except Fault Bool) :
    List Value → List Value → Except Fault Bool
  | u :: us, v :: vs => do
    if ← test u v then allAlike test us vs else return false
  | _, _ => return true

/-- Compare to a bounded depth. A list is equal to itself without a look inside. -/
def alikeWithin (s : Store) : Nat → Value → Value → Except Fault Bool
  | 0, .list a, .list b => if a = b then .ok true else .error .endless
  | depth + 1, .list a, .list b =>
    if a = b then .ok true
    else if (s.items a).length ≠ (s.items b).length then .ok false
    else allAlike (alikeWithin s depth) (s.items a) (s.items b)
  | _, u, v => .ok (u.alike v)

/-- Compare two values. A comparison deeper than there are pairs of lists has come back to
a pair it is still comparing. -/
def alike (s : Store) (u v : Value) : Except Fault Bool :=
  s.alikeWithin (s.lists.size * s.lists.size + 1) u v

end Store

/-- Settings are equal when both values are. -/
def Settings.alike (a : Settings) (s : Store) (b : Settings) : Except Fault Bool := do
  if ← s.alike a.indentWidth b.indentWidth then s.alike a.directive b.directive else return false

end ScriptGraph
