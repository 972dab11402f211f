/-!
Binary floating point numbers by their bits. A finite one is
`± significand · 2 ^ scale`; everything here is exact arithmetic on those three.
-/

namespace ScriptGraph

structure Binary64 where
  bits : UInt64
  deriving DecidableEq

namespace Binary64

def isNegative (x : Binary64) : Bool :=
  Nat.pow 2 63 ≤ x.bits.toNat

def exponentField (x : Binary64) : Nat :=
  x.bits.toNat / Nat.pow 2 52 % Nat.pow 2 11

def fractionField (x : Binary64) : Nat :=
  x.bits.toNat % Nat.pow 2 52

/-- Neither infinite nor undefined. -/
def isFinite (x : Binary64) : Bool :=
  x.exponentField ≠ 2047

def isUndefined (x : Binary64) : Bool :=
  x.exponentField = 2047 ∧ x.fractionField ≠ 0

def significand (x : Binary64) : Nat :=
  if x.exponentField = 0 then x.fractionField else Nat.pow 2 52 + x.fractionField

def scale (x : Binary64) : Int :=
  if x.exponentField = 0 then -1074 else (x.exponentField : Int) - 1075

def isZero (x : Binary64) : Bool :=
  x.isFinite ∧ x.significand = 0

def belowZero (x : Binary64) : Bool :=
  x.isNegative ∧ !x.isZero ∧ !x.isUndefined

/-- Numerical equality: the two zeros are equal and an undefined number equals nothing. -/
def sameNumber (x y : Binary64) : Bool :=
  !x.isUndefined ∧ (x = y ∨ (x.isZero ∧ y.isZero))

/-- Whether the number is exactly the integer `n`. -/
def sameInteger (x : Binary64) (n : Int) : Bool :=
  x.isFinite ∧ (n = 0 ∨ x.isNegative = decide (n < 0)) ∧
    x.significand * Nat.pow 2 x.scale.toNat = n.natAbs * Nat.pow 2 (-x.scale).toNat

end Binary64
end ScriptGraph
