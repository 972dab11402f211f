import ScriptGraph.Proofs.Separation
import ScriptGraph.Text.Quoted

/-!
Quoted texts can be read back. The code of a character says where it ends, and none starts with the
quotation mark, so a text in quotes is told from what stands behind it.
-/

namespace ScriptGraph
namespace Quoted

def digitValue (c : Char) : Nat :=
  if c.toNat < 58 then c.toNat - 48 else c.toNat - 87

/-- The number that hexadecimal digits stand for. -/
def ofHex (digits : List Char) : Nat :=
  digits.foldl (fun n c => 16 * n + digitValue c) 0

theorem digitValue_hexDigit {n : Nat} (h : n < 16) : digitValue (hexDigit n) = n := by
  have all : ∀ n < 16, digitValue (hexDigit n) = n := by decide
  exact all n h

theorem length_hex (width n : Nat) : (hex width n).length = width := by
  induction width generalizing n with
  | zero => rfl
  | succ width ih => simp [hex, ih]

theorem ofHex_hex {width n : Nat} (h : n < Nat.pow 16 width) : ofHex (hex width n) = n := by
  induction width generalizing n with
  | zero =>
      have zero : n = 0 := by simpa using h
      rw [zero]
      rfl
  | succ width ih =>
      have front : ofHex (hex width (n / 16)) = n / 16 := by
        apply ih
        exact Nat.div_lt_of_lt_mul (by rwa [Nat.mul_comm])
      have last : digitValue (hexDigit (n % 16)) = n % 16 :=
        digitValue_hexDigit (Nat.mod_lt _ (by decide))
      rw [ofHex] at front
      rw [ofHex, hex, List.foldl_append, front, List.foldl_cons, List.foldl_nil, last]
      exact Nat.div_add_mod n 16

/-- Read one character back, and what is behind it. -/
def read : List Char → Option (Char × List Char)
  | [] => none
  | '\\' :: 'n' :: cs => some ('\n', cs)
  | '\\' :: 'r' :: cs => some ('\r', cs)
  | '\\' :: 't' :: cs => some ('\t', cs)
  | '\\' :: 'x' :: cs => some (Char.ofNat (ofHex (cs.take 2)), cs.drop 2)
  | '\\' :: 'u' :: cs => some (Char.ofNat (ofHex (cs.take 4)), cs.drop 4)
  | '\\' :: 'U' :: cs => some (Char.ofNat (ofHex (cs.take 8)), cs.drop 8)
  | '\\' :: c :: cs => some (c, cs)
  | c :: cs => some (c, cs)

theorem ofNat_ofHex_take {width : Nat} {c : Char} (h : c.toNat < Nat.pow 16 width)
    (rest : List Char) :
    Char.ofNat (ofHex ((hex width c.toNat ++ rest).take width)) = c ∧
      (hex width c.toNat ++ rest).drop width = rest := by
  have length := length_hex width c.toNat
  rw [List.take_left' length, List.drop_left' length, ofHex_hex h, Char.ofNat_toNat]
  exact ⟨rfl, rfl⟩

theorem read_byCode (c : Char) (rest : List Char) : read (byCode c ++ rest) = some (c, rest) := by
  unfold byCode
  split
  case isTrue small =>
    have small : c.toNat < Nat.pow 16 2 := small
    obtain ⟨value, behind⟩ := ofNat_ofHex_take small rest
    simp only [List.cons_append, read, value, behind]
  case isFalse =>
    split
    case isTrue medium =>
      have medium : c.toNat < Nat.pow 16 4 := medium
      obtain ⟨value, behind⟩ := ofNat_ofHex_take medium rest
      simp only [List.cons_append, read, value, behind]
    case isFalse =>
      have large : c.toNat < Nat.pow 16 8 := c.val.toNat_lt
      obtain ⟨value, behind⟩ := ofNat_ofHex_take large rest
      simp only [List.cons_append, read, value, behind]

theorem mark_eq (text : List Char) : mark text = '\'' ∨ mark text = '"' := by
  unfold mark
  split
  · exact .inr rfl
  · exact .inl rfl

variable {quotation : Char}

theorem read_escape (h : quotation = '\'' ∨ quotation = '"') (c : Char) (rest : List Char) :
    read (escape quotation c ++ rest) = some (c, rest) := by
  unfold escape
  split
  case isTrue special =>
    have known : c = '\'' ∨ c = '"' ∨ c = '\\' := by
      rcases special with rfl | rfl
      · exact h.imp_right .inl
      · exact .inr (.inr rfl)
    rcases known with rfl | rfl | rfl <;> rfl
  case isFalse plain =>
    rw [not_or] at plain
    split
    case isTrue newline =>
      subst newline
      rfl
    case isFalse =>
      split
      case isTrue back =>
        subst back
        rfl
      case isFalse =>
        split
        case isTrue tab =>
          subst tab
          rfl
        case isFalse =>
          split
          case isTrue =>
            rw [List.cons_append, List.nil_append, read]
            all_goals simp_all
          case isFalse => exact read_byCode c rest

theorem head?_escape (h : quotation = '\'' ∨ quotation = '"') (c : Char) (rest : List Char) :
    (escape quotation c ++ rest).head? ≠ some quotation := by
  have other : '\\' ≠ quotation := by rcases h with rfl | rfl <;> decide
  unfold escape byCode
  split
  case isTrue => simpa using other
  case isFalse plain =>
    split
    · simpa using other
    · split
      · simpa using other
      · split
        · simpa using other
        · split
          · simpa using fun same : c = quotation => plain (.inl same)
          · split
            · simpa using other
            · split <;> simpa using other

/-- A text in quotes is told from every other one, and so is what is behind it. -/
theorem encode_append_inj {text other X Y : List Char}
    (h : encode text ++ X = encode other ++ Y) : text = other ∧ X = Y := by
  simp only [encode, List.cons_append, List.append_assoc, List.nil_append, List.cons.injEq] at h
  obtain ⟨sameMark, h⟩ := h
  have known := mark_eq text
  rw [← sameMark] at h
  have one : ∀ c ∈ text, ∀ d ∈ other, ∀ Z W,
      Z.head? ≠ some (mark text) ∨ Z.head? = some (mark text) →
      W.head? ≠ some (mark text) ∨ W.head? = some (mark text) →
      escape (mark text) c ++ Z = escape (mark text) d ++ W → c = d ∧ Z = W := by
    intro c _ d _ Z W _ _ same
    have both := (read_escape known c Z).symm.trans (same ▸ read_escape known d W)
    simpa using both
  obtain ⟨same, rest⟩ := flatMap_append_inj (fun _ => id) (fun c _ => head?_escape known c)
    (fun c _ => head?_escape known c) one rfl rfl h
  exact ⟨same, (List.cons.inj rest).2⟩

end Quoted
end ScriptGraph
