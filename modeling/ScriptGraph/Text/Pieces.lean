/-!
A text as pieces between separating characters. A text without the separator is
one piece, so there is always a first piece, and neighbouring separators have an
empty piece between them.
-/

namespace ScriptGraph
namespace Pieces

/-- The first piece and the pieces after it. -/
def cut (sep : Char) : List Char → List Char × List (List Char)
  | [] => ([], [])
  | c :: cs =>
    match cut sep cs with
    | (piece, pieces) => if c = sep then ([], piece :: pieces) else (c :: piece, pieces)

def split (sep : Char) (text : List Char) : List (List Char) :=
  match cut sep text with
  | (piece, pieces) => piece :: pieces

def join (sep : Char) : List (List Char) → List Char
  | [] => []
  | [piece] => piece
  | piece :: next :: pieces => piece ++ sep :: join sep (next :: pieces)

theorem split_ne_nil (sep : Char) (text : List Char) : split sep text ≠ [] := by
  simp [split]

theorem split_sep (sep : Char) (cs : List Char) : split sep (sep :: cs) = [] :: split sep cs := by
  simp [split, cut]

theorem join_cons_of_ne_nil (sep : Char) (piece : List Char) {pieces : List (List Char)}
    (h : pieces ≠ []) : join sep (piece :: pieces) = piece ++ sep :: join sep pieces := by
  cases pieces with
  | nil => exact absurd rfl h
  | cons next rest => rfl

/-- The joined text grows at its end. -/
theorem join_isPrefix_concat (sep : Char) (pieces : List (List Char)) (last : List Char) :
    join sep pieces <+: join sep (pieces ++ [last]) := by
  induction pieces with
  | nil => exact List.nil_prefix
  | cons piece pieces ih =>
    cases pieces with
    | nil => exact List.prefix_append piece (sep :: last)
    | cons next rest =>
      rw [List.cons_append, join_cons_of_ne_nil sep piece (by simp),
        join_cons_of_ne_nil sep piece (by simp), List.prefix_append_right_inj,
        List.cons_prefix_cons]
      exact ⟨rfl, ih⟩

/-- Cutting a text into pieces loses nothing. -/
theorem join_split (sep : Char) (text : List Char) : join sep (split sep text) = text := by
  induction text with
  | nil => rfl
  | cons c cs ih =>
    by_cases h : c = sep
    · rw [h, split_sep, join_cons_of_ne_nil _ _ (split_ne_nil sep cs), ih]
      rfl
    · cases hc : cut sep cs with
      | mk piece pieces =>
        simp only [split, hc] at ih
        simp only [split, cut, hc, h, if_false]
        cases pieces <;> simpa [join] using congrArg (c :: ·) ih

variable {sep : Char}

theorem cut_of_split {text piece : List Char} {pieces : List (List Char)}
    (h : split sep text = piece :: pieces) : cut sep text = (piece, pieces) :=
  Prod.ext (List.cons.inj h).1 (List.cons.inj h).2

theorem split_cons_of_ne {c : Char} (h : c ≠ sep) (cs : List Char) :
    split sep (c :: cs) = (c :: (cut sep cs).1) :: (cut sep cs).2 := by
  simp [split, cut, h]

/-- No piece has the separator in it. -/
theorem not_mem_of_mem_split {text piece : List Char} (h : piece ∈ split sep text) :
    sep ∉ piece := by
  induction text generalizing piece with
  | nil =>
      rw [show piece = [] from List.mem_singleton.mp h]
      exact List.not_mem_nil
  | cons c cs ih =>
      by_cases hc : c = sep
      · rw [hc, split_sep, List.mem_cons] at h
        rcases h with rfl | later
        · exact List.not_mem_nil
        · exact ih later
      · rw [split_cons_of_ne hc, List.mem_cons] at h
        rcases h with rfl | later
        · have first : sep ∉ (cut sep cs).1 := ih (by simp [split])
          simp [first, Ne.symm hc]
        · exact ih (by simp [split, later])

theorem split_append_sep {piece : List Char} (h : sep ∉ piece) (rest : List Char) :
    split sep (piece ++ sep :: rest) = piece :: split sep rest := by
  induction piece with
  | nil => exact split_sep sep rest
  | cons c cs ih =>
      rw [List.mem_cons, not_or] at h
      have tail := ih h.2
      simp only [split, List.cons_append, cut, if_neg (Ne.symm h.1), List.cons.injEq] at tail ⊢
      exact ⟨⟨trivial, tail.1⟩, tail.2⟩

theorem split_of_not_mem {piece : List Char} (h : sep ∉ piece) : split sep piece = [piece] := by
  induction piece with
  | nil => rfl
  | cons c cs ih =>
      rw [List.mem_cons, not_or] at h
      have tail := ih h.2
      simp only [split, cut, if_neg (Ne.symm h.1), List.cons.injEq] at tail ⊢
      exact ⟨⟨trivial, tail.1⟩, tail.2⟩

/-- Pieces without the separator are found again. -/
theorem split_join {pieces : List (List Char)} (some : pieces ≠ [])
    (h : ∀ piece ∈ pieces, sep ∉ piece) : split sep (join sep pieces) = pieces := by
  induction pieces with
  | nil => exact absurd rfl some
  | cons piece pieces ih =>
      cases pieces with
      | nil => exact split_of_not_mem (h piece (by simp))
      | cons next pieces =>
          rw [join, split_append_sep (h piece (by simp)),
            ih (by simp) fun other mem => h other (List.mem_cons_of_mem _ mem)]

end Pieces
end ScriptGraph
