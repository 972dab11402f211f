import Mathlib.Data.List.Basic
import ScriptGraph.Number.Shortest

/-!
The texts of numbers. Digits, a point, signs and a few letters are all there is to them, and the
text of a binary number is never the text of an integer.
-/

namespace ScriptGraph

def isNumeralChar (c : Char) : Bool :=
  c.isDigit || c ∈ ['-', '.', 'e', '+', 'i', 'n', 'f', 'a']

/-- The text is made of what numbers are written with. -/
def IsNumeral (text : String) : Prop :=
  ∀ c ∈ text.toList, isNumeralChar c

namespace IsNumeral

theorem append {s t : String} (hs : IsNumeral s) (ht : IsNumeral t) : IsNumeral (s ++ t) := by
  intro c hc
  rw [String.toList_append, List.mem_append] at hc
  exact hc.elim (hs c) (ht c)

theorem ofDigits {cs : List Char} (h : ∀ c ∈ cs, c.isDigit) : IsNumeral (String.ofList cs) := by
  intro c hc
  rw [String.toList_ofList] at hc
  simp [isNumeralChar, h c hc]

end IsNumeral

theorem isDigit_of_mem_repr {n : Nat} {c : Char} (h : c ∈ n.repr.toList) : c.isDigit := by
  rw [Nat.toList_repr] at h
  exact Nat.isDigit_of_mem_toDigits (by decide) (by decide) h

theorem isNumeral_repr (n : Nat) : IsNumeral n.repr := by
  have digits : IsNumeral (String.ofList n.repr.toList) := .ofDigits fun _ => isDigit_of_mem_repr
  rwa [String.ofList_toList] at digits

theorem isDigit_or_minus_of_mem_repr {n : Int} {c : Char} (h : c ∈ n.repr.toList) :
    c.isDigit ∨ c = '-' := by
  rw [Int.repr_eq_if] at h
  split at h
  case isTrue => exact .inl (isDigit_of_mem_repr h)
  case isFalse =>
    rw [String.toList_append, List.mem_append] at h
    rcases h with h | h
    · exact .inr (by simpa using h)
    · exact .inl (isDigit_of_mem_repr h)

theorem isNumeral_int (n : Int) : IsNumeral n.repr := by
  intro c hc
  rcases isDigit_or_minus_of_mem_repr hc with digit | rfl
  · simp [isNumeralChar, digit]
  · rfl

theorem nat_eq_of_repr_eq {m n : Nat} (h : m.repr = n.repr) : m = n := by
  have digits : Nat.toDigits 10 m = Nat.toDigits 10 n := by
    rw [← Nat.toList_repr, ← Nat.toList_repr, h]
  rw [← Nat.ofDigitChars_ten_toDigits (n := m), digits, Nat.ofDigitChars_ten_toDigits]

/-- An integer is known by its text: only a negative one has a sign. -/
theorem int_eq_of_repr_eq {m n : Int} (h : m.repr = n.repr) : m = n := by
  have unsigned (k l : Nat) : k.repr ≠ "-" ++ l.repr := by
    intro same
    have sign : '-' ∈ k.repr.toList := by simp [same]
    exact absurd (isDigit_of_mem_repr sign) (by decide)
  rw [Int.repr_eq_if, Int.repr_eq_if] at h
  split at h
  case isTrue =>
    split at h
    case isTrue =>
      have same := nat_eq_of_repr_eq h
      omega
    case isFalse => exact absurd h (unsigned _ _)
  case isFalse =>
    split at h
    case isTrue => exact absurd h.symm (unsigned _ _)
    case isFalse =>
      have digits := congrArg String.toList h
      rw [String.toList_append, String.toList_append, List.append_cancel_left_eq] at digits
      have same := nat_eq_of_repr_eq (String.toList_inj.mp digits)
      omega

theorem repr_ne_empty (n : Int) : n.repr ≠ "" := by
  rw [Int.repr_eq_if]
  split
  · exact Nat.repr_ne_empty
  · exact fun h => absurd (congrArg String.toList h) (by simp)

namespace Decimal

theorem isNumeral_text (d : Decimal) : IsNumeral d.text := by
  have front (k : Nat) : IsNumeral (String.ofList (d.digits.repr.toList.take k)) :=
    .ofDigits fun _ h => isDigit_of_mem_repr (List.mem_of_mem_take h)
  have back (k : Nat) : IsNumeral (String.ofList (d.digits.repr.toList.drop k)) :=
    .ofDigits fun _ h => isDigit_of_mem_repr (List.mem_of_mem_drop h)
  have zeros (k : Nat) : IsNumeral (String.ofList (List.replicate k '0')) :=
    .ofDigits fun _ h => List.eq_of_mem_replicate h ▸ rfl
  have point : IsNumeral "." := by simp [IsNumeral, isNumeralChar]
  simp only [text]
  split
  case isTrue => simp [IsNumeral, isNumeralChar]
  case isFalse =>
    split
    case isTrue =>
      split
      case isTrue =>
        have zero : IsNumeral "0." := by simp [IsNumeral, isNumeralChar]
        exact (zero.append (zeros _)).append (isNumeral_repr _)
      case isFalse =>
        split
        case isTrue =>
          have whole : IsNumeral ".0" := by simp [IsNumeral, isNumeralChar]
          exact ((isNumeral_repr _).append (zeros _)).append whole
        case isFalse => exact ((front _).append point).append (back _)
    case isFalse =>
      refine (((front 1).append ?_).append ?_).append ?_
      · split
        · simp [IsNumeral]
        · exact point.append (back 1)
      · split <;> simp [IsNumeral, isNumeralChar]
      · have zero : IsNumeral "0" := by simp [IsNumeral, isNumeralChar]
        split
        · exact zero.append (isNumeral_repr _)
        · exact isNumeral_repr _

/-- The text of a decimal has a point or an exponent. -/
theorem point_or_exponent_mem_text (d : Decimal) : '.' ∈ d.text.toList ∨ 'e' ∈ d.text.toList := by
  simp only [text]
  split
  case isTrue => simp
  case isFalse =>
    split
    case isTrue =>
      split
      · simp
      · split <;> simp
    case isFalse =>
      have power (k : Int) : 'e' ∈ (if k < 0 then "e-" else "e+").toList := by split <;> simp
      right
      rw [String.toList_append, String.toList_append, List.mem_append, List.mem_append]
      exact .inl (.inr (power _))

end Decimal

namespace Binary64

theorem isNumeral_text (x : Binary64) : IsNumeral x.text := by
  unfold text
  split
  case isTrue => simp [IsNumeral, isNumeralChar]
  case isFalse =>
    refine .append ?_ ?_
    · split <;> simp [IsNumeral, isNumeralChar]
    · split
      · exact x.shortest.isNumeral_text
      · simp [IsNumeral, isNumeralChar]

theorem strange_mem_text (x : Binary64) :
    '.' ∈ x.text.toList ∨ 'e' ∈ x.text.toList ∨ 'n' ∈ x.text.toList := by
  unfold text
  split
  case isTrue => simp
  case isFalse =>
    rw [String.toList_append]
    by_cases finite : x.isFinite
    · rw [if_pos finite]
      exact x.shortest.point_or_exponent_mem_text.imp (List.mem_append_right _)
        fun mem => .inl (List.mem_append_right _ mem)
    · simp [finite]

theorem text_ne_empty (x : Binary64) : x.text ≠ "" := by
  intro h
  simpa [h] using x.strange_mem_text

theorem text_ne_repr (x : Binary64) (n : Int) : x.text ≠ n.repr := by
  intro h
  have strange := x.strange_mem_text
  rw [h] at strange
  rcases strange with mem | mem | mem <;>
    exact absurd (isDigit_or_minus_of_mem_repr mem) (by decide)

end Binary64
end ScriptGraph
