import ScriptGraph.Number.Binary64

/-!
The fewest decimal digits that read back as a given binary number, and the text
made of them. For each number of digits in turn the two neighbours of the number
on that decimal grid are tried against the interval of reals that round to it.
-/

namespace ScriptGraph

/-- The number `digits · 10 ^ exponent`. -/
structure Decimal where
  digits : Nat
  exponent : Int
  deriving DecidableEq

namespace Shortest

/-- A positive number `value / unit` and the ends of the interval that rounds to it,
all in the same unit. -/
structure Interval where
  low : Nat
  value : Nat
  high : Nat
  unit : Nat
  closed : Bool

/-- The interval of a nonzero finite number. Just above a power of two the gap below
is half the gap above. The ends belong to it when the significand is even. -/
def interval (x : Binary64) : Interval :=
  let m := x.significand
  let q := x.scale - 2
  let below := if m = Nat.pow 2 52 ∧ 1 < x.exponentField then 1 else 2
  let up := Nat.pow 2 q.toNat
  { low := (4 * m - below) * up
    value := 4 * m * up
    high := (4 * m + 2) * up
    unit := Nat.pow 2 (-q).toNat
    closed := m % 2 = 0 }

def Interval.holds (i : Interval) (n : Nat) : Bool :=
  if i.closed then i.low ≤ n ∧ n ≤ i.high else i.low < n ∧ n < i.high

/-- Multiply by ten `n` times while the number stays below `bound`, counting. -/
def tensBelow (bound : Nat) : Nat → Nat → Nat
  | 0, _ => 0
  | fuel + 1, n => if n < bound then tensBelow bound fuel (10 * n) + 1 else 0

/-- The `k` with `10 ^ (k - 1) ≤ value / unit < 10 ^ k`. -/
def magnitude (i : Interval) : Int :=
  if i.unit ≤ i.value then (Nat.toDigits 10 (i.value / i.unit)).length
  else 1 - (tensBelow i.unit 400 i.value : Int)

/-- The grid point next to the number in steps of `10 ^ exponent`, if one rounds to it.
The nearer of two wins, and the even one if both are as near. -/
def onGrid? (i : Interval) (exponent : Int) : Option Nat :=
  let shrink := Nat.pow 10 (-exponent).toNat
  let step := i.unit * Nat.pow 10 exponent.toNat
  let scaled : Interval :=
    { i with low := i.low * shrink, value := i.value * shrink, high := i.high * shrink }
  let under := scaled.value / step
  let gap := 2 * (scaled.value % step)
  match scaled.holds (under * step), scaled.holds ((under + 1) * step) with
  | true, true =>
    if gap < step ∨ (gap = step ∧ under % 2 = 0) then some under else some (under + 1)
  | true, false => some under
  | false, true => some (under + 1)
  | false, false => none

/-- Drop trailing zeros. -/
def trim : Nat → Decimal → Decimal
  | 0, d => d
  | fuel + 1, d =>
    if d.digits = 0 ∨ d.digits % 10 ≠ 0 then d else trim fuel ⟨d.digits / 10, d.exponent + 1⟩

/-- Try `count` digits, then one more, `fuel` times. -/
def search (i : Interval) (top : Int) : Nat → Nat → Option Decimal
  | 0, _ => none
  | fuel + 1, count =>
    match onGrid? i (top - count) with
    | some n => some (trim 20 ⟨n, top - count⟩)
    | none => search i top fuel (count + 1)

end Shortest

/-- The shortest decimal of the size of a finite number; seventeen digits are always enough. -/
def Binary64.shortest (x : Binary64) : Decimal :=
  if x.significand = 0 then ⟨0, 0⟩
  else
    let i := Shortest.interval x
    (Shortest.search i (Shortest.magnitude i) 17 1).getD ⟨0, 0⟩

namespace Decimal

/-- Positional from `10 ^ -4` up to below `10 ^ 16`, with at least one digit after the
point; otherwise one digit before the point and a signed exponent of two digits or more. -/
def text (d : Decimal) : String :=
  let digits := d.digits.repr
  let count := digits.length
  let point := d.exponent + count
  if d.digits = 0 then "0.0"
  else if -4 < point ∧ point ≤ 16 then
    if point ≤ 0 then "0." ++ String.ofList (List.replicate (-point).toNat '0') ++ digits
    else if (count : Int) ≤ point then
      digits ++ String.ofList (List.replicate (point.toNat - count) '0') ++ ".0"
    else
      String.ofList (digits.toList.take point.toNat) ++ "." ++
        String.ofList (digits.toList.drop point.toNat)
  else
    let power := point - 1
    let written := power.natAbs.repr
    String.ofList (digits.toList.take 1) ++
      (if count = 1 then "" else "." ++ String.ofList (digits.toList.drop 1)) ++
      (if power < 0 then "e-" else "e+") ++
      (if written.length < 2 then "0" ++ written else written)

end Decimal

def Binary64.text (x : Binary64) : String :=
  if x.isUndefined then "nan"
  else (if x.isNegative then "-" else "") ++ (if x.isFinite then x.shortest.text else "inf")

end ScriptGraph
