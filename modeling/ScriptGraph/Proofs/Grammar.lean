import ScriptGraph.Proofs.TreeText

/-!
The trees that scripts are made of: names are words, every part has the kind that its
place asks for, and an alternative never follows a statement that could take it. What
each of them is written as at a given depth is stated without the layout.
-/

namespace ScriptGraph

def keywords : List String :=
  ["true", "false", "if", "else", "switch", "case", "default", "var", "function"]

/-- Letters, digits, `_` and `$`. What is beyond ASCII counts as a letter. -/
def isWordChar (c : Char) : Bool :=
  c.isAlphanum || c = '_' || c = '$' || 127 < c.toNat

def isIdentifier (name : String) : Bool :=
  name ≠ "" && name.toList.all isWordChar && !name.toList.head?.any Char.isDigit &&
    name ∉ keywords

theorem isIdentifier_iff {name : String} : isIdentifier name ↔
    ((name ≠ "" ∧ ∀ c ∈ name.toList, isWordChar c) ∧
      name.toList.head?.any Char.isDigit = false) ∧ name ∉ keywords := by
  simp [isIdentifier]

theorem isWordChar_of_mem_keyword {name : String} (h : name ∈ keywords) :
    ∀ c ∈ name.toList, isWordChar c := by
  have words : (keywords.all fun name => name.toList.all isWordChar) = true := rfl
  exact List.all_eq_true.mp (List.all_eq_true.mp words name h)

/-- The places that a tree can stand in. -/
inductive Role
  | expression
  | statement
  | group
  | declarator
  | program

namespace Tree

/-- Whether an alternative right behind a statement would be taken for a part of it. -/
def isOpen : Tree → Bool
  | conditional _ _ none => true
  | conditional _ _ (some alternative) => alternative.isOpen
  | bare | program .. | empty | boolean _ | block _ | caseGroup .. | switch .. | declarator ..
  | declaration _ | function .. => false

/-- The tree is one that its role asks for, and so is everything below it. -/
inductive Fits : Role → Tree → Prop
  | boolean (value : Bool) : Fits .expression (boolean value)
  | function {role : Role} {name : String} {params : List String} {body : Option (List Tree)}
      (hrole : role = .expression ∨ role = .statement)
      (hname : name = "" ∨ isIdentifier name) (hparams : ∀ param ∈ params, isIdentifier param)
      (hbody : Fits .statement (block body)) : Fits role (function name params (block body))
  | empty : Fits .statement empty
  | block {ts : Option (List Tree)} (h : ∀ list ∈ ts, ∀ t ∈ list, Fits .statement t) :
      Fits .statement (block ts)
  | conditional {t u : Tree} {x : Option Tree} (ht : Fits .expression t)
      (hu : Fits .statement u) (closed : x ≠ none → u.isOpen = false)
      (hx : ∀ y ∈ x, Fits .statement y) : Fits .statement (conditional t u x)
  | switch {t : Tree} {ts : Option (List Tree)} (ht : Fits .expression t)
      (hts : ∀ list ∈ ts, ∀ u ∈ list, Fits .group u) : Fits .statement (switch t ts)
  | caseGroup {labels : List (String ⊕ Tree)} {ts : List Tree}
      (names : ∀ name, .inl name ∈ labels → isIdentifier name)
      (nodes : ∀ t, .inr t ∈ labels → Fits .expression t)
      (hts : ∀ t ∈ ts, Fits .statement t) : Fits .group (caseGroup labels ts)
  | declaration {ts : List Tree} (h : ∀ t ∈ ts, Fits .declarator t) :
      Fits .statement (declaration ts)
  | declarator {name : String} {x : Option Tree} (hname : isIdentifier name)
      (hx : ∀ t ∈ x, Fits .expression t) : Fits .declarator (declarator name x)
  | program {ts : List Tree} (strict : Bool) (h : ∀ t ∈ ts, Fits .statement t) :
      Fits .program (program strict ts)

end Tree

theorem exists_cons_of_isIdentifier {name : String} (h : isIdentifier name) :
    ∃ c cs, name.toList = c :: cs ∧ isWordChar c := by
  obtain ⟨⟨⟨full, word⟩, -⟩, -⟩ := isIdentifier_iff.mp h
  have full : name.toList ≠ [] := by simpa using full
  obtain ⟨c, cs, hc⟩ := List.exists_cons_of_ne_nil full
  exact ⟨c, cs, hc, word c (by simp [hc])⟩

theorem newline_not_mem_of_isIdentifier {name : String} (h : isIdentifier name) :
    '\n' ∉ name.toList := by
  intro hmem
  have word := (isIdentifier_iff.mp h).1.1.2 _ hmem
  revert word
  decide

theorem intercalate_cons_eq_flatMap {α : Type} (sep a : List α) (as : List (List α)) :
    sep.intercalate (a :: as) = a ++ as.flatMap fun b => sep ++ b := by
  induction as generalizing a with
  | nil => simp
  | cons b bs ih =>
      have tail := ih b
      simp_all

namespace Tree
variable (width : Nat) (directive : String) (depth : Nat)

/-- The text of a tree that continues a line at the given depth. -/
def write (t : Tree) : List Char :=
  (t.layout directive).hang width depth

/-- A part that may be missing, with what stands in front of it. -/
def writeOptional (before : String) : Option Tree → List Char
  | none => []
  | some t => before.toList ++ t.write width directive depth

def writeLabel : String ⊕ Tree → List Char
  | .inl name => "case ".toList ++ name.toList ++ [':']
  | .inr t => "case ".toList ++ t.write width directive depth ++ [':']

theorem writeLabel_inl (name : String) : writeLabel width directive depth (.inl name) =
    "case ".toList ++ name.toList ++ [':'] := rfl

theorem writeLabel_inr (t : Tree) : writeLabel width directive depth (.inr t) =
    "case ".toList ++ t.write width directive depth ++ [':'] := rfl

/-- The lines of a group that its labels are written to. -/
def writeHeads : List (String ⊕ Tree) → List Char
  | [] => "default:".toList
  | label :: labels => writeLabel width directive depth label ++
    labels.flatMap fun label => newline width depth ++ writeLabel width directive depth label

theorem writeHeads_nil : writeHeads width directive depth [] = "default:".toList := rfl

theorem writeHeads_cons (label : String ⊕ Tree) (labels : List (String ⊕ Tree)) :
    writeHeads width directive depth (label :: labels) = writeLabel width directive depth label ++
      labels.flatMap fun label => newline width depth ++ writeLabel width directive depth label :=
  rfl

/-- The lines of a group below those of its labels; there always is one. -/
def writeTail : List Tree → List Char
  | [] => newline width depth
  | t :: ts => (t :: ts).flatMap fun t =>
    newline width (depth + 1) ++ t.write width directive (depth + 1)

theorem write_boolean (value : Bool) : (boolean value).write width directive depth =
    (if value then "true" else "false").toList := by
  cases value <;> rfl

theorem write_absentBlock : (block none).write width directive depth = ['\x7b', '\x7d'] := rfl

theorem write_block (ts : List Tree) : (block (some ts)).write width directive depth =
    '\x7b' :: (ts.flatMap fun t =>
      newline width (depth + 1) ++ t.write width directive (depth + 1)) ++
        newline width depth ++ ['\x7d'] := by
  simp [write, layout, layoutAll_eq, List.flatMap_map]

theorem write_conditional (t u : Tree) (x : Option Tree) :
    (conditional t u x).write width directive depth =
      "if (".toList ++ t.write width directive depth ++ ") ".toList ++
        u.write width directive depth ++ writeOptional width directive depth "else " x := by
  have opening : (Layout.ofText "if (").hang width depth = "if (".toList := rfl
  have closing : (Layout.ofText ") ").hang width depth = ") ".toList := rfl
  have between : (Layout.ofText "else ").hang width depth = "else ".toList := rfl
  cases x <;> simp only [write, layout, Layout.hang_append, opening, closing, between,
    writeOptional, List.append_assoc, List.append_nil]

theorem write_switch (t : Tree) (ts : Option (List Tree)) :
    (switch t ts).write width directive depth =
      "switch (".toList ++ t.write width directive depth ++ ") ".toList ++
        (block ts).write width directive depth := by
  have opening : (Layout.ofText "switch (").hang width depth = "switch (".toList := rfl
  have closing : (Layout.ofText ") ").hang width depth = ") ".toList := rfl
  cases ts <;> simp only [write, layout, Layout.hang_append, opening, closing]

theorem write_declarator {name : String} (h : isIdentifier name) (x : Option Tree) :
    (declarator name x).write width directive depth =
      name.toList ++ writeOptional width directive depth " = " x := by
  have start := Layout.hang_ofChars width depth (newline_not_mem_of_isIdentifier h)
  have between : (Layout.ofText " = ").hang width depth = " = ".toList := rfl
  cases x with
  | none =>
      simp only [write, layout, writeOptional, List.append_nil]
      rw [Layout.ofText, start]
  | some t =>
      simp only [write, layout, Layout.hang_append, between, writeOptional, List.append_assoc]
      rw [Layout.ofText, start]

theorem write_declaration_nil : (declaration []).write width directive depth = "var ;".toList :=
  rfl

theorem write_declaration_cons (t : Tree) (ts : List Tree) :
    (declaration (t :: ts)).write width directive depth =
      "var ".toList ++ t.write width directive depth ++
        (ts.flatMap fun u => ',' :: newline width (depth + 1) ++ u.write width directive depth) ++
          [';'] := by
  have opening : (Layout.ofText "var ").hang width depth = "var ".toList := rfl
  have closing : (Layout.ofText ";").hang width depth = [';'] := rfl
  simp only [write, layout, Layout.hang_append, opening, closing, layoutAll_eq, List.map_cons,
    Layout.hang_series, intercalate_cons_eq_flatMap, List.flatMap_map, List.append_assoc]

theorem write_function {name : String} {params : List String} (t : Tree)
    (hname : name = "" ∨ isIdentifier name) (hparams : ∀ param ∈ params, isIdentifier param) :
    (function name params t).write width directive depth =
      "function ".toList ++ name.toList ++ ['('] ++
        [',', ' '].intercalate (params.map String.toList) ++ ") ".toList ++
          t.write width directive depth := by
  have hn : '\n' ∉ name.toList := by
    rcases hname with rfl | hname
    · simp
    · exact newline_not_mem_of_isIdentifier hname
  have hp : '\n' ∉ [',', ' '].intercalate (params.map String.toList) := by
    cases params with
    | nil => simp
    | cons param params =>
        rw [List.map_cons, intercalate_cons_eq_flatMap]
        have head := newline_not_mem_of_isIdentifier (hparams param (by simp))
        have tail : ∀ other ∈ params, '\n' ∉ other.toList := fun other h =>
          newline_not_mem_of_isIdentifier (hparams other (by simp [h]))
        simpa [head] using tail
  have head : '\n' ∉ ("function " ++ name ++ "(" ++ ", ".intercalate params ++ ") ").toList := by
    simp [hn, hp]
  rw [write, layout, Layout.hang_append, Layout.ofText, Layout.hang_ofChars width depth head]
  simp [write]

theorem write_caseGroup {labels : List (String ⊕ Tree)}
    (names : ∀ name, .inl name ∈ labels → isIdentifier name) (ts : List Tree) :
    (caseGroup labels ts).write width directive depth =
      writeHeads width directive depth labels ++ writeTail width directive depth ts := by
  have heads (labels : List (String ⊕ Tree))
      (names : ∀ name, .inl name ∈ labels → isIdentifier name) :
      (layoutHeads directive labels).map (Layout.hang width depth) =
        labels.map (writeLabel width directive depth) := by
    have opening : (Layout.ofText "case ").hang width depth = "case ".toList := rfl
    have colon : (Layout.ofText ":").hang width depth = [':'] := rfl
    induction labels with
    | nil => rfl
    | cons label labels ih =>
        have tail := ih fun name h => names name (by simp [h])
        cases label with
        | inl name =>
            have plain := Layout.hang_ofChars width depth
              (newline_not_mem_of_isIdentifier (names name (by simp)))
            rw [layoutHeads, List.map_cons, List.map_cons, tail]
            simp only [Layout.hang_append, opening, colon, writeLabel_inl]
            rw [Layout.ofText, plain]
        | inr t =>
            simp only [layoutHeads, List.map_cons, tail, Layout.hang_append, opening, colon,
              writeLabel_inr, write]
  rw [write, layout, Layout.hang_below]
  congr 1
  · cases labels with
    | nil => rfl
    | cons label labels =>
        have written := heads _ names
        rw [if_neg (by simp), Layout.hang_column, written, List.map_cons,
          intercalate_cons_eq_flatMap, List.flatMap_map, writeHeads_cons]
  · cases ts with
    | nil => simp [writeTail]
    | cons t ts =>
        rw [if_neg (by simp)]
        simp only [layoutAll_eq, List.flatMap_assoc, List.flatMap_map,
          Layout.flatMap_hang_deeper, writeTail, write]

theorem write_program (strict : Bool) (ts : List Tree) :
    (program strict ts).write width directive 0 =
      (if strict then directive.toList ++ ['\n', '\n'] else []) ++
        ts.flatMap (write width directive 0) := by
  have parts : write width directive 0 = fun t => (t.layout directive).hang width 0 := rfl
  rw [parts]
  cases strict with
  | false => simp [layout, layoutAll_eq, Layout.hang_concat, List.flatMap_map]
  | true => simp [layout, layoutAll_eq, Layout.hang_concat, List.flatMap_map, Layout.ofText]

end Tree
end ScriptGraph
