import ScriptGraph.Text.Lines

/-!
Texts as lines at a depth, whatever the width of a level is. Writing a layout in
full and indenting the result is the same as writing it one level deeper, so a
text that is indented once for every level it stands in can be written in one pass.
-/

namespace ScriptGraph

/-- Characters that stand in one line. -/
abbrev Segment := { cs : List Char // '\n' ∉ cs }

namespace Segment

def empty : Segment :=
  ⟨[], List.not_mem_nil⟩

def append (a b : Segment) : Segment :=
  ⟨a.1 ++ b.1, by simp [a.2, b.2]⟩

end Segment

structure Line where
  depth : Nat
  body : Segment

/-- Lines of which the first, there always is one, has depth zero. -/
structure Layout where
  first : Segment
  rest : List Line

/-- The end of a line and the indentation of the next one. -/
def newline (width depth : Nat) : List Char :=
  '\n' :: List.replicate (width * depth) ' '

/-- A line at the given depth below the line that it follows. -/
def Line.hang (width depth : Nat) (line : Line) : List Char :=
  newline width (depth + line.depth) ++ line.body.1

namespace Layout

def lines (a : Layout) : List Line :=
  ⟨0, a.first⟩ :: a.rest

/-- The lines of a layout one level deeper. -/
def deeper (a : Layout) : List Line :=
  a.lines.map fun line => ⟨line.depth + 1, line.body⟩

/-- A text as it stands, its own line ends included. -/
def ofChars : List Char → Layout
  | [] => ⟨.empty, []⟩
  | c :: cs =>
    if h : c = '\n' then ⟨.empty, (ofChars cs).lines⟩
    else ⟨⟨c :: (ofChars cs).first.1, by simp [Ne.symm h, (ofChars cs).first.2]⟩, (ofChars cs).rest⟩

def ofText (text : String) : Layout :=
  ofChars text.toList

def empty : Layout :=
  ⟨.empty, []⟩

/-- A layout that starts where a first line and the lines after it end. -/
def continueFrom (b : Layout) (first : Segment) : List Line → Layout
  | [] => ⟨first.append b.first, b.rest⟩
  | line :: rest =>
    ⟨first, ⟨line.depth, (b.continueFrom line.body rest).first⟩ ::
      (b.continueFrom line.body rest).rest⟩

/-- One layout right behind another: the last line of the one and the first line of the other
become one line, at the depth of the former. -/
instance : Append Layout where
  append a b := b.continueFrom a.first a.rest

/-- Lines below a layout. -/
def below (a : Layout) (lines : List Line) : Layout :=
  ⟨a.first, a.rest ++ lines⟩

def concat : List Layout → Layout
  | [] => empty
  | a :: as => a ++ concat as

/-- Layouts with commas in between. Each after the first one starts on a line of its own, at
depth one; their other lines keep their depth. -/
def series : List Layout → Layout
  | [] => empty
  | [a] => a
  | a :: as => (a ++ ofText ",").below (⟨1, (series as).first⟩ :: (series as).rest)

/-- Layouts below each other. -/
def column : List Layout → Layout
  | [] => empty
  | a :: as => a.below (as.flatMap lines)

/-- Lines between braces, each one level deeper. -/
def braced : Option (List Layout) → Layout
  | none => ofText "\x7b\x7d"
  | some parts => (ofText "\x7b").below (parts.flatMap deeper ++ (ofText "\x7d").lines)

/-- The text at a width for each level. -/
def text (width : Nat) (a : Layout) : String :=
  String.ofList
    (Lines.join (a.lines.map fun line => List.replicate (width * line.depth) ' ' ++ line.body.1))

/-- The text of a layout whose first line continues a line, so that it is not indented, and
whose other lines stand at the given depth. -/
def hang (width depth : Nat) (a : Layout) : List Char :=
  a.first.1 ++ a.rest.flatMap (Line.hang width depth)

def depths (a : Layout) : List Nat :=
  a.lines.map Line.depth

theorem depths_eq (a : Layout) : a.depths = 0 :: a.rest.map Line.depth := rfl

@[simp] theorem cons_tail_depths (a : Layout) : 0 :: a.depths.tail = a.depths := rfl

@[simp] theorem cons_tail_depths_append (a : Layout) (depths : List Nat) :
    0 :: (a.depths.tail ++ depths) = a.depths ++ depths := rfl

@[simp] theorem tail_depths_append (a : Layout) (depths : List Nat) :
    (a.depths ++ depths).tail = a.depths.tail ++ depths := rfl

/-- The first line of the second layout gives up its depth. -/
@[simp] theorem depths_append (a b : Layout) : (a ++ b).depths = a.depths ++ b.depths.tail := by
  obtain ⟨first, rest⟩ := a
  change (b.continueFrom first rest).depths = _
  induction rest generalizing first with
  | nil => rfl
  | cons line rest ih =>
      have tail := ih line.body
      rw [depths_eq, depths_eq, List.cons_append, List.cons.injEq] at tail
      simp [depths_eq, continueFrom, tail.2]

@[simp] theorem depths_below (a : Layout) (lines : List Line) :
    (a.below lines).depths = a.depths ++ lines.map Line.depth := by
  simp [depths_eq, below]

@[simp] theorem map_depth_deeper (a : Layout) :
    a.deeper.map Line.depth = a.depths.map (· + 1) := by
  simp [deeper, depths]

theorem depths_concat (as : List Layout) :
    (concat as).depths = 0 :: as.flatMap fun a => a.depths.tail := by
  induction as with
  | nil => rfl
  | cons a as ih =>
      rw [concat, depths_append, ih, List.tail_cons, List.flatMap_cons]
      rfl

theorem depths_series (a : Layout) (as : List Layout) :
    (series (a :: as)).depths = a.depths ++ as.flatMap fun b => 1 :: b.depths.tail := by
  induction as generalizing a with
  | nil => simp [series]
  | cons b bs ih =>
      have comma : (ofText ",").depths = [0] := rfl
      have tail : (series (b :: bs)).rest.map Line.depth =
          b.depths.tail ++ bs.flatMap fun c => 1 :: c.depths.tail := by
        simpa [depths_eq] using ih b
      rw [series, depths_below, List.map_cons, tail, depths_append, comma]
      · simp
      · simp

theorem depths_column (a : Layout) (as : List Layout) :
    (column (a :: as)).depths = (a :: as).flatMap depths := by
  simp [column, List.map_flatMap]
  rfl

@[simp] theorem depths_braced (as : List Layout) :
    (braced (some as)).depths = 0 :: (as.flatMap fun a => a.depths.map (· + 1)) ++ [0] := by
  have opening : (ofText "\x7b").depths = [0] := rfl
  have closing : (ofText "\x7d").lines.map Line.depth = [0] := rfl
  simp [braced, opening, closing, List.map_flatMap]

theorem eq_zero_of_mem_depths_ofText (text : String) :
    ∀ depth ∈ (ofText text).depths, depth = 0 := by
  rw [ofText]
  induction text.toList with
  | nil => simp [ofChars, depths_eq]
  | cons c cs ih =>
      unfold ofChars
      split
      · have own : depths ⟨.empty, (ofChars cs).lines⟩ = 0 :: (ofChars cs).depths := rfl
        rw [own]
        simpa using ih
      · exact ih

@[simp] theorem depths_ofText {text : String} (h : '\n' ∉ text.toList) :
    (ofText text).depths = [0] := by
  rw [ofText]
  generalize text.toList = cs at h
  induction cs with
  | nil => rfl
  | cons c cs ih =>
      rw [List.mem_cons, not_or] at h
      unfold ofChars
      rw [dif_neg (Ne.symm h.1)]
      exact ih h.2

variable (width depth : Nat)

@[simp] theorem hang_empty : empty.hang width depth = [] := rfl

theorem hang_mk_cons (first : Segment) (line : Line) (rest : List Line) :
    hang width depth ⟨first, line :: rest⟩ =
      first.1 ++ newline width (depth + line.depth) ++ hang width depth ⟨line.body, rest⟩ := by
  simp [hang, Line.hang]

@[simp] theorem hang_append (a b : Layout) :
    (a ++ b).hang width depth = a.hang width depth ++ b.hang width depth := by
  obtain ⟨first, rest⟩ := a
  change (b.continueFrom first rest).hang width depth = _
  induction rest generalizing first with
  | nil => simp [continueFrom, hang, Segment.append]
  | cons line rest ih =>
      calc
        _ = first.1 ++ newline width (depth + line.depth) ++
            (b.continueFrom line.body rest).hang width depth := hang_mk_cons ..
        _ = _ := by rw [ih, hang_mk_cons, List.append_assoc, List.append_assoc, List.append_assoc]

@[simp] theorem hang_below (a : Layout) (lines : List Line) :
    (a.below lines).hang width depth =
      a.hang width depth ++ lines.flatMap (Line.hang width depth) := by
  simp [below, hang]

@[simp] theorem flatMap_hang_lines (a : Layout) :
    a.lines.flatMap (Line.hang width depth) = newline width depth ++ a.hang width depth := by
  simp [lines, hang, Line.hang]

@[simp] theorem flatMap_hang_deeper (a : Layout) :
    a.deeper.flatMap (Line.hang width depth) =
      newline width (depth + 1) ++ a.hang width (depth + 1) := by
  rw [← flatMap_hang_lines, deeper, List.flatMap_map]
  congr 1
  funext line
  simp [Line.hang, Nat.add_assoc, Nat.add_comm 1]

theorem hang_concat (as : List Layout) :
    (concat as).hang width depth = as.flatMap (hang width depth) := by
  induction as with
  | nil => rfl
  | cons a as ih => simp [concat, ih]

theorem hang_series (as : List Layout) :
    (series as).hang width depth =
      List.intercalate (',' :: newline width (depth + 1)) (as.map (hang width depth)) := by
  induction as with
  | nil => rfl
  | cons a as ih =>
      cases as with
      | nil => simp [series]
      | cons b bs =>
          have comma : (ofText ",").hang width depth = [','] := rfl
          have tail : Line.hang width depth ⟨1, (series (b :: bs)).first⟩ ++
              (series (b :: bs)).rest.flatMap (Line.hang width depth) =
              newline width (depth + 1) ++ (series (b :: bs)).hang width depth := by
            simp [hang, Line.hang]
          rw [series, hang_below, List.flatMap_cons, tail, ih, hang_append, comma]
          · simp
          · simp

theorem hang_column (as : List Layout) :
    (column as).hang width depth =
      List.intercalate (newline width depth) (as.map (hang width depth)) := by
  cases as with
  | nil => rfl
  | cons a as =>
      rw [column, hang_below]
      induction as generalizing a with
      | nil => simp
      | cons b bs ih => simpa using ih b

@[simp] theorem hang_braced_none :
    (braced none).hang width depth = ['\x7b', '\x7d'] := rfl

@[simp] theorem hang_braced_some (as : List Layout) :
    (braced (some as)).hang width depth = '\x7b' ::
      (as.flatMap fun a => newline width (depth + 1) ++ a.hang width (depth + 1)) ++
        newline width depth ++ ['\x7d'] := by
  have opening : (ofText "\x7b").hang width depth = ['\x7b'] := rfl
  have closing : (ofText "\x7d").hang width depth = ['\x7d'] := rfl
  simp [braced, List.flatMap_assoc, opening, closing]

/-- Line ends within a text are not indented at depth zero. -/
@[simp] theorem hang_ofChars_zero (cs : List Char) : (ofChars cs).hang width 0 = cs := by
  induction cs with
  | nil => rfl
  | cons c cs ih =>
      unfold ofChars
      split
      case isTrue h =>
        rw [h]
        simp [hang, lines, Line.hang, newline, Segment.empty]
        exact ih
      case isFalse => exact congrArg (c :: ·) ih

theorem hang_ofChars {cs : List Char} (h : '\n' ∉ cs) : (ofChars cs).hang width depth = cs := by
  induction cs with
  | nil => rfl
  | cons c cs ih =>
      rw [List.mem_cons, not_or] at h
      unfold ofChars
      rw [dif_neg (Ne.symm h.1)]
      exact congrArg (c :: ·) (ih h.2)

theorem toList_text (a : Layout) : (a.text width).toList = a.hang width 0 := by
  obtain ⟨first, rest⟩ := a
  have joined (k : Nat) : Lines.join
      (((⟨k, first⟩ : Line) :: rest).map fun line =>
        List.replicate (width * line.depth) ' ' ++ line.body.1) =
      List.replicate (width * k) ' ' ++ hang width 0 ⟨first, rest⟩ := by
    induction rest generalizing first k with
    | nil => simp [Lines.join, Pieces.join, hang]
    | cons line rest ih =>
        have tail := ih line.body line.depth
        simp only [List.map_cons, Lines.join] at tail ⊢
        simp [Pieces.join, tail, hang_mk_cons, newline]
  rw [text, String.toList_ofList, lines, joined]
  simp

end Layout

theorem Pieces.join_append_cons (sep : Char) (a b : List Char) (pieces : List (List Char)) :
    join sep ((a ++ b) :: pieces) = a ++ join sep (b :: pieces) := by
  cases pieces <;> simp [join]

namespace Lines

/-- Indentation goes to the front and behind every line end. -/
theorem indent_eq (width : Nat) (cs : List Char) :
    indent width cs = List.replicate width ' ' ++
      cs.flatMap fun c => if c = '\n' then '\n' :: List.replicate width ' ' else [c] := by
  induction cs with
  | nil => simp [indent, split, join, Pieces.split, Pieces.cut, Pieces.join]
  | cons c cs ih =>
      cases hc : Pieces.cut '\n' cs with
      | mk piece pieces =>
        simp only [indent, split, join, Pieces.split, hc, List.map_cons,
          Pieces.join_append_cons, List.append_cancel_left_eq] at ih
        by_cases h : c = '\n'
        · simp [indent, split, join, Pieces.split, Pieces.cut, hc, h, Pieces.join,
            Pieces.join_append_cons, ih]
        · have front := Pieces.join_append_cons '\n' [c] piece
            (pieces.map (List.replicate width ' ' ++ ·))
          rw [List.singleton_append] at front
          simp [indent, split, join, Pieces.split, Pieces.cut, hc, h, Pieces.join_append_cons,
            front, ih]

end Lines

namespace Layout

theorem indent_hang (width depth : Nat) (a : Layout) :
    Lines.indent width (a.hang width depth) =
      List.replicate width ' ' ++ a.hang width (depth + 1) := by
  have plain (body : Segment) : (body.1.flatMap fun c =>
      if c = '\n' then '\n' :: List.replicate width ' ' else [c]) = body.1 := by
    obtain ⟨cs, h⟩ := body
    dsimp only
    induction cs with
    | nil => rfl
    | cons c cs ih =>
        rw [List.mem_cons, not_or] at h
        rw [List.flatMap_cons, if_neg (Ne.symm h.1), ih h.2]
        rfl
  rw [Lines.indent_eq]
  congr 1
  rw [hang, hang, List.flatMap_append, plain, List.flatMap_assoc]
  congr 2
  funext line
  have spaces (n : Nat) : ((List.replicate n ' ').flatMap fun c =>
      if c = '\n' then '\n' :: List.replicate width ' ' else [c]) = List.replicate n ' ' := by
    simpa using plain ⟨List.replicate n ' ', by simp⟩
  rw [Line.hang, Line.hang, List.flatMap_append, plain, newline, newline, List.flatMap_cons, spaces,
    Nat.add_right_comm, Nat.mul_succ, Nat.add_comm (width * _), ← List.replicate_append_replicate]
  simp

end Layout

end ScriptGraph
