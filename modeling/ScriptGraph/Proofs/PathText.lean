import ScriptGraph.Fixture.Path

/-!
The text of a path is read as that path again. What reading drops, empty components and
single dots, is never written, and the slashes of the root stay apart from the first
component because no component begins with one.
-/

namespace ScriptGraph
namespace Path

/-- A path as texts are read: its components are neither empty nor a single dot. -/
structure Proper (p : Path) : Prop where
  isRoot : p.root = [] ∨ p.root = ['/'] ∨ p.root = ['/', '/']
  components : ∀ c ∈ p.components, c ≠ [] ∧ c ≠ ['.'] ∧ '/' ∉ c

theorem proper_ofChars (text : List Char) : (ofChars text).Proper where
  isRoot := by
    simp only [ofChars]
    unfold rootOf
    split <;> simp
  components c mem := by
    rw [ofChars, List.mem_filter, decide_eq_true_eq] at mem
    exact ⟨mem.2.1, mem.2.2, Pieces.not_mem_of_mem_split mem.1⟩

namespace Proper
variable {p : Path}

theorem head?_join (h : p.Proper) : (Pieces.join '/' p.components).head? ≠ some '/' := by
  have names := h.components
  cases all : p.components with
  | nil => simp [Pieces.join]
  | cons first others =>
      obtain ⟨some, -, free⟩ := names first (by simp [all])
      obtain ⟨c, cs, rfl⟩ := List.exists_cons_of_ne_nil some
      have other : c ≠ '/' := fun same => free (by simp [same])
      cases others <;> simpa [Pieces.join] using other

theorem rootOf_append (h : p.Proper) {rest : List Char} (start : rest.head? ≠ some '/') :
    rootOf (p.root ++ rest) = p.root := by
  cases rest with
  | nil => rcases h.isRoot with root | root | root <;> rw [root] <;> rfl
  | cons c cs =>
      have other : c ≠ '/' := by simpa using start
      rcases h.isRoot with root | root | root <;> simp [root, rootOf, other]

/-- The slashes of the root are no components. -/
theorem components_root_append (h : p.Proper) (rest : List Char) :
    (ofChars (p.root ++ rest)).components = (ofChars rest).components := by
  rcases h.isRoot with root | root | root
  · rw [root, List.nil_append]
  · simp [root, ofChars, Pieces.split_sep]
  · simp [root, ofChars, Pieces.split_sep]

theorem components_join (h : p.Proper) :
    (ofChars (Pieces.join '/' p.components)).components = p.components := by
  have names := h.components
  cases all : p.components with
  | nil => rfl
  | cons first others =>
      rw [all] at names
      rw [ofChars, Pieces.split_join (by simp) fun c mem => (names c mem).2.2]
      refine List.filter_eq_self.mpr fun c mem => ?_
      exact decide_eq_true ⟨(names c mem).1, (names c mem).2.1⟩

/-- The text of a path means that path. -/
theorem ofChars_toChars (h : p.Proper) : ofChars p.toChars = p := by
  obtain ⟨root, components⟩ := p
  rw [toChars]
  split
  case isTrue here =>
    obtain ⟨rfl, rfl⟩ := here
    rfl
  case isFalse =>
    have sameRoot := h.rootOf_append h.head?_join
    have sameComponents := (h.components_root_append _).trans h.components_join
    rw [ofChars, Path.mk.injEq]
    exact ⟨sameRoot, sameComponents⟩

end Proper

theorem ofString_text (d : String) : ofString (ofString d).text = ofString d := by
  rw [ofString, text, String.toList_ofList]
  exact (proper_ofChars d.toList).ofChars_toChars

end Path
end ScriptGraph
