import ScriptGraph.Proofs.TreeText

/-!
Laws of indentation. The lines of an indented text are the lines of the text behind a
run of spaces; from this it follows that nothing is lost, that indentations add up and
that texts below each other can be indented one by one. The run of spaces is made before
the text is looked at, so a call that memory has no room for fails whatever the text is.
-/

namespace ScriptGraph
namespace Lines

theorem split_indent (width : Nat) (text : List Char) :
    split (indent width text) = (split text).map (List.replicate width ' ' ++ ·) := by
  have some : (split text).map (List.replicate width ' ' ++ ·) ≠ [] := by
    simp [split, Pieces.split]
  refine Pieces.split_join some fun line mem => ?_
  obtain ⟨inner, found, rfl⟩ := List.mem_map.mp mem
  have unbroken : '\n' ∉ inner := Pieces.not_mem_of_mem_split found
  simp [unbroken]

theorem indent_indent (a b : Nat) (text : List Char) :
    indent b (indent a text) = indent (a + b) text := by
  have merge (line : List Char) : List.replicate b ' ' ++ (List.replicate a ' ' ++ line) =
      List.replicate (a + b) ' ' ++ line := by
    rw [← List.append_assoc, List.replicate_append_replicate, Nat.add_comm]
  rw [indent, split_indent, List.map_map, indent]
  congr 2
  funext line
  exact merge line

/-- Without the spaces that were put there the lines are those of the text. -/
theorem map_drop_split_indent (width : Nat) (text : List Char) :
    (split (indent width text)).map (List.drop width) = split text := by
  have back (line : List Char) : (List.replicate width ' ' ++ line).drop width = line :=
    List.drop_left' (by simp)
  rw [split_indent, List.map_map]
  exact (List.map_congr_left fun line _ => back line).trans (List.map_id _)

theorem join_map_drop_indent (width : Nat) (text : List Char) :
    join ((split (indent width text)).map (List.drop width)) = text := by
  rw [map_drop_split_indent]
  exact Pieces.join_split '\n' text

theorem take_of_mem_split_indent {width : Nat} {text line : List Char}
    (h : line ∈ split (indent width text)) : line.take width = List.replicate width ' ' := by
  rw [split_indent] at h
  obtain ⟨inner, -, rfl⟩ := List.mem_map.mp h
  exact List.take_left' (by simp)

theorem indent_injective (width : Nat) : Function.Injective (indent width) := by
  intro s t same
  rw [← join_map_drop_indent width s, same, join_map_drop_indent]

theorem indent_append_newline (width : Nat) (s t : List Char) :
    indent width (s ++ '\n' :: t) = indent width s ++ '\n' :: indent width t := by
  simp [indent_eq]

theorem indent_of_not_mem {text : List Char} (h : '\n' ∉ text) (width : Nat) :
    indent width text = List.replicate width ' ' ++ text := by
  rw [indent, split, Pieces.split_of_not_mem h]
  rfl

end Lines

/-- Indentation of a text by a width has the given outcome, in whatever form the text and the
width are passed. -/
def Indents (memory : Memory) (store : Store) (width : Nat) (t : String)
    (outcome : Except Fault String) : Prop :=
  ∀ text count : Value, text.isText t → count.integer? = some (width : Int) →
    indentValue memory store text count = outcome

section Calls
variable {memory : Memory} {width : Nat} (store : Store)

theorem indents_of_holds (small : width < Nat.pow 2 63) (room : memory.holds width = true)
    (t : String) : Indents memory store width t (.ok (indentText width t)) := by
  intro text count isText isCount
  obtain ⟨origin, rfl⟩ := Value.isText_iff.mp isText
  rw [indentValue_of_integer? memory store isCount small, if_pos room]

theorem indents_of_not_holds (small : width < Nat.pow 2 63) (full : memory.holds width = false)
    (t : String) : Indents memory store width t (.error .noMemory) := by
  intro text count isText isCount
  obtain ⟨origin, rfl⟩ := Value.isText_iff.mp isText
  rw [indentValue_of_integer? memory store isCount small, if_neg (by simp [full])]

end Calls

/-- The result has the lines of the text, each behind a run of spaces of the given width. -/
structure Indented (width : Nat) (text result : String) : Prop where
  sameLength : (Lines.split result.toList).length = (Lines.split text.toList).length
  spaces : ∀ line ∈ Lines.split result.toList, line.take width = List.replicate width ' '
  restored : Lines.join ((Lines.split result.toList).map (List.drop width)) = text.toList

theorem indented_indentText (width : Nat) (t : String) : Indented width t (indentText width t) := by
  have written : (indentText width t).toList = Lines.indent width t.toList := String.toList_ofList
  constructor
  · rw [written, Lines.split_indent, List.length_map]
  · rw [written]
    exact fun line => Lines.take_of_mem_split_indent
  · rw [written, Lines.join_map_drop_indent]

/-- The laws of indentation by one width, and by another one after it. -/
structure IndentLaws (memory : Memory) (store : Store) (a b : Nat) : Prop where
  returns : memory.holds a = true → ∀ t, Indents memory store a t (.ok (indentText a t))
  fails : memory.holds a = false → ∀ t, Indents memory store a t (.error .noMemory)
  adds : memory.holds (a + b) = true → ∀ t, ∃ once twice,
    Indents memory store a t (.ok once) ∧ Indents memory store b once (.ok twice) ∧
      Indents memory store (a + b) t (.ok twice)
  lines : ∀ t, Indented a t (indentText a t)
  injective : ∀ s t, indentText a s = indentText a t → s = t
  joins : ∀ s t, indentText a (s ++ "\n" ++ t) = indentText a s ++ "\n" ++ indentText a t
  /-- Only the newline ends a line. -/
  unbroken : ∀ t : String, '\n' ∉ t.toList →
    Lines.split t.toList = [t.toList] ∧ indentText a t = spaces a ++ t

theorem indentLaws_of_lt (memory : Memory) (store : Store) {a b : Nat}
    (small : a + b < Nat.pow 2 63) : IndentLaws memory store a b where
  returns room := indents_of_holds store (by omega) room
  fails full := indents_of_not_holds store (by omega) full
  adds room t := by
    have first : memory.holds a = true := memory.holds_of_le room (by omega)
    have second : memory.holds b = true := memory.holds_of_le room (by omega)
    have sum : indentText b (indentText a t) = indentText (a + b) t := by
      simp [indentText, Lines.indent_indent]
    refine ⟨indentText a t, indentText (a + b) t, indents_of_holds store (by omega) first t, ?_,
      indents_of_holds store small room t⟩
    rw [← sum]
    exact indents_of_holds store (by omega) second _
  lines := indented_indentText a
  injective s t same := by
    rw [indentText, indentText, String.ofList_inj] at same
    exact String.toList_inj.mp (Lines.indent_injective a same)
  joins s t := by
    rw [← String.toList_inj]
    simp [indentText, Lines.indent_append_newline]
  unbroken t single := by
    refine ⟨Pieces.split_of_not_mem single, ?_⟩
    rw [← String.toList_inj]
    simp [indentText, spaces, Lines.indent_of_not_mem single]

/-- A carriage return and a line separator stay where they are, the newline at the end makes
a second line. -/
theorem separated_indentLaws : 2 + 3 < Nat.pow 2 63 ∧
    IndentLaws .standard .empty 2 3 ∧
    Indents .standard .empty 2 "a\r\u2028\n" (.ok "  a\r\u2028\n  ") ∧
    Memory.standard.holds (Nat.pow 2 55) = false ∧
    Indents .standard .empty (Nat.pow 2 55) "a" (.error .noMemory) := by
  have laws : IndentLaws .standard .empty 2 3 := indentLaws_of_lt .standard .empty (by decide)
  have vast : IndentLaws .standard .empty (Nat.pow 2 55) 0 :=
    indentLaws_of_lt .standard .empty (by decide)
  have text : indentText 2 "a\r\u2028\n" = "  a\r\u2028\n  " := by decide
  refine ⟨by decide, laws, ?_, by decide, vast.fails (by decide) "a"⟩
  rw [← text]
  exact laws.returns (by decide) _

/-- A width may fit in 64 bits and still ask for more spaces than there is room for. -/
theorem not_indented_of_lt : ¬ ∀ a b : Nat, a + b < Nat.pow 2 63 → ∀ t, ∃ result,
    Indents Settings.default.memory .empty a t (.ok result) ∧ Indented a t result := by
  intro h
  obtain ⟨result, called, -⟩ := h 36028797018963968 0 (by decide) ";"
  have short : indentValue Settings.default.memory .empty (.text ";") (.int 36028797018963968) =
      .error .noMemory := by decide
  have done := called (.text ";") (.int 36028797018963968) rfl rfl
  rw [short] at done
  cases done

end ScriptGraph
