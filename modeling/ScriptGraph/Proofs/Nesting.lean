import Mathlib.Data.List.Infix
import ScriptGraph.Proofs.Grammar
import ScriptGraph.Proofs.Sound

/-!
Indentation and braces. In a text that is laid out from statements each line is indented by the
number of braces that are open where it starts, one less if it closes one itself. The level is
carried from line to line: a part that is laid out comes back to the level it has started from,
so parts can be joined, and between braces everything stands one level higher.
-/

namespace ScriptGraph

/-- How many more braces are opened than closed. -/
def rise (cs : List Char) : Int :=
  (cs.count '\x7b' : Int) - cs.count '\x7d'

/-- How many levels a line stands below the level it starts at: one if it closes a brace first. -/
def fall (cs : List Char) : Int :=
  if cs.head? = some '\x7d' then 1 else 0

@[simp] theorem rise_nil : rise [] = 0 := rfl

@[simp] theorem rise_append (a b : List Char) : rise (a ++ b) = rise a + rise b := by
  simp only [rise, List.count_append]
  omega

theorem rise_of_not_mem {cs : List Char} (h : '\x7b' ∉ cs) (h' : '\x7d' ∉ cs) : rise cs = 0 := by
  rw [rise, List.count_eq_zero.mpr h, List.count_eq_zero.mpr h']
  rfl

@[simp] theorem rise_newline (width depth : Nat) : rise (newline width depth) = 0 :=
  rise_of_not_mem (by simp [newline]) (by simp [newline])

theorem prefix_append_cases {p a b : List Char} (h : p <+: a ++ b) :
    p <+: a ∨ ∃ q, q <+: b ∧ p = a ++ q := by
  obtain ⟨t, ht⟩ := h
  rcases List.append_eq_append_iff.mp ht with ⟨q, rfl, -⟩ | ⟨q, rfl, rfl⟩
  · exact .inl (List.prefix_append p q)
  · exact .inr ⟨q, List.prefix_append q t, rfl⟩

/-- The prefixes of a given text can be checked one by one. -/
theorem above_of_inits {cs : List Char} {level : Int} (h : ∀ p ∈ cs.inits, 0 ≤ level + rise p)
    (p : List Char) (hp : p <+: cs) : 0 ≤ level + rise p :=
  h p ((List.mem_inits p cs).mpr hp)

theorem head?_append_ne {a b : List Char} {c : Char} (ha : a.head? ≠ some c)
    (hb : b.head? ≠ some c) : (a ++ b).head? ≠ some c := by
  cases a with
  | nil => exact hb
  | cons _ _ => exact ha

theorem fall_append {b : List Char} (a : List Char) (hb : fall b = 0) :
    fall (a ++ b) = fall a := by
  cases a with
  | nil => exact hb
  | cons _ _ => rfl

/-- The braces of a text match, and every line is indented by the level it stands at. -/
structure Lines.Nested (width : Nat) (text : List Char) : Prop where
  above {p : List Char} : p <+: text → p.count '\x7d' ≤ p.count '\x7b'
  balanced : text.count '\x7b' = text.count '\x7d'
  indented {before after : List (List Char)} {line : List Char} :
    Lines.split text = before ++ line :: after →
      ((line.takeWhile (· = ' ')).length : Int) =
        width * (rise before.flatten - fall (line.dropWhile (· = ' ')))

/-- Lines that start at one level and end at another one. No line starts with a space, each has
the depth of its level, and at no place are more braces closed than were open. -/
inductive Nests : Int → List Line → Int → Prop
  | nil (level : Int) : Nests level [] level
  | cons {level final : Int} {line : Line} {rest : List Line}
      (start : line.body.1.head? ≠ some ' ')
      (depth : (line.depth : Int) = level - fall line.body.1)
      (above : ∀ p, p <+: line.body.1 → 0 ≤ level + rise p)
      (tail : Nests (level + rise line.body.1) rest final) : Nests level (line :: rest) final

namespace Nests
variable {level middle final : Int} {lines rest : List Line}

theorem eq_of_nil (h : Nests level [] final) : level = final := by
  cases h
  rfl

theorem append (h : Nests level lines middle) (k : Nests middle rest final) :
    Nests level (lines ++ rest) final := by
  induction h with
  | nil => exact k
  | cons start depth above _ ih => exact .cons start depth above (ih k)

theorem exists_middle (h : Nests level (lines ++ rest) final) :
    ∃ middle, Nests level lines middle ∧ Nests middle rest final := by
  induction lines generalizing level with
  | nil => exact ⟨level, .nil level, h⟩
  | cons line lines ih =>
      cases h with
      | cons start depth above tail =>
          obtain ⟨middle, front, back⟩ := ih tail
          exact ⟨middle, .cons start depth above front, back⟩

/-- All of it one level higher. -/
theorem deeper (h : Nests level lines final) :
    Nests (level + 1) (lines.map fun line => ⟨line.depth + 1, line.body⟩) (final + 1) := by
  induction h with
  | nil level => exact .nil _
  | @cons level final line rest start depth above tail ih =>
      refine .cons start ?_ (fun p hp => ?_) ?_
      · push_cast
        omega
      · have := above p hp
        omega
      · rw [Int.add_right_comm]
        exact ih

/-- The level at the end, however the lines are written. -/
theorem final_eq (h : Nests level lines final) {write : Line → List Char}
    (same : ∀ line, rise (write line) = rise line.body.1) :
    final = level + rise (lines.flatMap write) := by
  induction h with
  | nil => simp
  | cons _ _ _ _ ih =>
      rw [ih, List.flatMap_cons, rise_append, same]
      omega

end Nests

/-- A text of one line without braces that does not start with a space. -/
def isPlain (text : String) : Bool :=
  (text.toList.all fun c => c ≠ '\x7b' && c ≠ '\x7d' && c ≠ '\n') && text.toList.head? ≠ some ' '

theorem isPlain_iff {text : String} : isPlain text ↔
    ('\x7b' ∉ text.toList ∧ '\x7d' ∉ text.toList ∧ '\n' ∉ text.toList) ∧
      text.toList.head? ≠ some ' ' := by
  simp only [isPlain, Bool.and_eq_true, List.all_eq_true, decide_eq_true_eq]
  refine and_congr_left fun _ => ⟨fun h => ?_, fun h c hc => ?_⟩
  · exact ⟨fun mem => (h _ mem).1.1 rfl, fun mem => (h _ mem).1.2 rfl, fun mem => (h _ mem).2 rfl⟩
  · exact ⟨⟨fun e => h.1 (e ▸ hc), fun e => h.2.1 (e ▸ hc)⟩, fun e => h.2.2 (e ▸ hc)⟩

namespace Layout
variable {a b : Layout}

/-- The lines start and end at the level of the layout itself. -/
def Nested (a : Layout) : Prop :=
  Nests 0 a.lines 0

theorem Nested.below {lines : List Line} (h : a.Nested) (k : Nests 0 lines 0) :
    (a.below lines).Nested :=
  Nests.append h k

/-- What ends at the level of a nested layout can be continued by it. -/
theorem Nested.continueFrom (hb : b.Nested) {level : Int} {depth : Nat} {first : Segment}
    {rest : List Line} (h : Nests level (⟨depth, first⟩ :: rest) 0) :
    Nests level (⟨depth, (b.continueFrom first rest).first⟩ :: (b.continueFrom first rest).rest)
      0 := by
  induction rest generalizing level depth first with
  | nil =>
      cases h with
      | cons start place above tail =>
          cases hb with
          | cons start' place' above' tail' =>
              -- Two lines become one. Its start is that of the former, and if that is empty, the
              -- latter has the right start, too.
              have back : level + rise first.1 = 0 := tail.eq_of_nil
              have upright : fall b.first.1 = 0 := by
                dsimp only at place'
                omega
              refine .cons (head?_append_ne start start') ?_ (fun p hp => ?_) ?_
              · exact (fall_append first.1 upright).symm ▸ place
              · rcases prefix_append_cases hp with inside | ⟨q, hq, rfl⟩
                · exact above p inside
                · have := above' q hq
                  rw [rise_append]
                  omega
              · change Nests (level + rise (first.1 ++ b.first.1)) b.rest 0
                rw [rise_append, ← Int.add_assoc, back]
                exact tail'
  | cons line rest ih =>
      cases h with
      | cons start place above tail => exact .cons start place above (ih tail)

theorem Nested.append (ha : a.Nested) (hb : b.Nested) : (a ++ b).Nested :=
  hb.continueFrom ha

/-- The text up to a line end and the text below it. -/
theorem ofChars_append_newline {cs : List Char} (h : '\n' ∉ cs) (rest : List Char) :
    ofChars (cs ++ '\n' :: rest) = ⟨⟨cs, h⟩, (ofChars rest).lines⟩ := by
  induction cs with
  | nil => simp [ofChars, Segment.empty]
  | cons c cs ih =>
      rw [List.mem_cons, not_or] at h
      rw [List.cons_append, ofChars, dif_neg (Ne.symm h.1)]
      simp only [ih h.2]

theorem ofChars_of_not_mem {cs : List Char} (h : '\n' ∉ cs) : ofChars cs = ⟨⟨cs, h⟩, []⟩ := by
  induction cs with
  | nil => rfl
  | cons c cs ih =>
      have rest := (not_or.mp fun e => h (List.mem_cons.mpr e)).2
      rw [ofChars, dif_neg fun e => h (by simp [e])]
      simp only [ih rest]

/-- A line that comes back to where it has started from. -/
theorem nested_single {cs : List Char} (one : '\n' ∉ cs) (start : cs.head? ≠ some ' ')
    (upright : fall cs = 0) (above : ∀ p, p <+: cs → 0 ≤ 0 + rise p) (balanced : rise cs = 0) :
    (ofChars cs).Nested := by
  rw [ofChars_of_not_mem one]
  refine .cons start ?_ above ?_
  · dsimp only
    omega
  · dsimp only
    rw [balanced]
    exact .nil 0

theorem nested_ofText {text : String} (h : isPlain text) : (ofText text).Nested := by
  obtain ⟨⟨opening, closing, one⟩, start⟩ := isPlain_iff.mp h
  have none {p : List Char} (hp : p <+: text.toList) : rise p = 0 :=
    rise_of_not_mem (fun mem => opening (hp.subset mem)) fun mem => closing (hp.subset mem)
  refine nested_single one start (if_neg fun head => closing (List.mem_of_head? head)) ?_ ?_
  · exact fun p hp => Int.le_of_eq (by rw [none hp]; rfl)
  · exact none (List.prefix_refl _)

theorem nested_empty : empty.Nested :=
  nested_ofText (by decide : isPlain "")

theorem nested_concat {as : List Layout} (h : ∀ a ∈ as, a.Nested) : (concat as).Nested := by
  induction as with
  | nil => exact nested_empty
  | cons a as ih => exact (h a (by simp)).append (ih fun b hb => h b (by simp [hb]))

/-- Of more than one part, the others start on lines that are deeper than their level. -/
theorem nested_series {as : List Layout} (few : as.length ≤ 1) (h : ∀ a ∈ as, a.Nested) :
    (series as).Nested := by
  cases as with
  | nil => exact nested_empty
  | cons a as =>
      cases as with
      | nil => exact h a (by simp)
      | cons b bs => simp at few

theorem nested_opening {directive : String} (h : isPlain directive) :
    (ofText (directive ++ "\n\n")).Nested := by
  have one := (isPlain_iff.mp h).1.2.2
  have lines : ofText (directive ++ "\n\n") =
      (ofText directive).below (empty.lines ++ empty.lines) := by
    rw [ofText, String.toList_append, ofText, ofChars_of_not_mem one]
    exact ofChars_append_newline one ['\n']
  rw [lines]
  exact (nested_ofText h).below (Nests.append nested_empty nested_empty)

theorem nested_braced_none : (braced none).Nested :=
  nested_single (by decide) (by decide) rfl (above_of_inits (by decide)) rfl

/-- Between the braces each part comes back to the level that the opening one has led to. -/
theorem nested_braced_some {as : List Layout} (h : ∀ a ∈ as, a.Nested) :
    (braced (some as)).Nested := by
  have inner : Nests 1 (as.flatMap deeper) 1 := by
    induction as with
    | nil => exact .nil 1
    | cons a as ih =>
        exact (h a (by simp)).deeper.append (ih fun b hb => h b (by simp [hb]))
  have closing : Nests 1 (ofText "\x7d").lines 0 :=
    .cons (by decide) rfl (above_of_inits (by decide)) (.nil _)
  have opening : Nests 0 (ofText "\x7b").lines 1 :=
    .cons (by decide) rfl (above_of_inits (by decide)) (.nil _)
  exact opening.append (inner.append closing)

end Layout

/-- A line at the front of a text or behind a line end. -/
def Line.written (width : Nat) (line : Line) : List Char :=
  List.replicate (width * line.depth) ' ' ++ line.body.1

/-- The spaces in front of a line are those of its indentation. -/
theorem Line.takeWhile_written (width : Nat) (line : Line) (start : line.body.1.head? ≠ some ' ') :
    (line.written width).takeWhile (· = ' ') = List.replicate (width * line.depth) ' ' := by
  have none : line.body.1.takeWhile (· = ' ') = [] := by
    cases body : line.body.1 with
    | nil => rfl
    | cons c cs => exact List.takeWhile_cons_of_neg (by simpa [body] using start)
  rw [written, List.takeWhile_append_of_pos (by simp), none, List.append_nil]

theorem Line.dropWhile_written (width : Nat) (line : Line) (start : line.body.1.head? ≠ some ' ') :
    (line.written width).dropWhile (· = ' ') = line.body.1 := by
  rw [written, List.dropWhile_append_of_pos (by simp)]
  cases body : line.body.1 with
  | nil => rfl
  | cons c cs => exact List.dropWhile_cons_of_neg (by simpa [body] using start)

theorem rise_written (width : Nat) (line : Line) :
    rise (line.written width) = rise line.body.1 := by
  have spaces : rise (List.replicate (width * line.depth) ' ') = 0 :=
    rise_of_not_mem (by simp) (by simp)
  rw [Line.written, rise_append, spaces]
  omega

theorem rise_hang (width : Nat) (line : Line) : rise (line.hang width 0) = rise line.body.1 := by
  rw [Line.hang, rise_append, rise_newline]
  omega

namespace Nests
variable {level final : Int} {lines : List Line} {width : Nat}

/-- What is open stays open up to where it is closed, also in the middle of a line. -/
theorem above_of_prefix (h : Nests level lines final) (ground : 0 ≤ level) {p : List Char}
    (hp : p <+: lines.flatMap (Line.hang width 0)) : 0 ≤ level + rise p := by
  induction h generalizing p with
  | nil level =>
      rw [List.flatMap_nil, List.prefix_nil] at hp
      subst hp
      simpa using ground
  | @cons level final line rest start depth above tail ih =>
      rw [List.flatMap_cons, Line.hang, List.append_assoc] at hp
      rcases prefix_append_cases hp with inside | ⟨q, hq, rfl⟩
      · -- Within the indentation nothing is opened or closed.
        have none : rise p = 0 := rise_of_not_mem
          (fun mem => by simpa [newline] using inside.subset mem)
          fun mem => by simpa [newline] using inside.subset mem
        omega
      · rw [rise_append, rise_newline]
        rcases prefix_append_cases hq with inside | ⟨r, hr, rfl⟩
        · have := above q inside
          omega
        · have := ih (above _ (List.prefix_refl _)) hr
          rw [rise_append]
          omega

end Nests

namespace Layout
variable {a : Layout}

theorem split_text (width : Nat) (a : Layout) :
    Lines.split (a.text width).toList = a.lines.map (Line.written width) := by
  rw [text, String.toList_ofList]
  refine Pieces.split_join (by simp [lines]) fun piece mem => ?_
  obtain ⟨line, -, rfl⟩ := List.mem_map.mp mem
  simp [line.body.2]

/-- The text of a nested layout is nested, whatever the width is. -/
theorem Nested.text (h : a.Nested) (width : Nat) : Lines.Nested width (a.text width).toList := by
  have hung : a.lines.flatMap (Line.hang width 0) = '\n' :: (a.text width).toList := by
    rw [flatMap_hang_lines, toList_text]
    simp [newline]
  have same (p : List Char) : rise ('\n' :: p) = rise p := by simp [rise]
  refine ⟨fun {p} hp => ?_, ?_, fun {before after line} cut => ?_⟩
  · have above := Nests.above_of_prefix h (Int.le_refl 0)
      (hung ▸ (List.prefix_cons_inj '\n').mpr hp)
    rw [same, rise] at above
    omega
  · have final := Nests.final_eq h (rise_hang width)
    rw [hung, same, rise] at final
    omega
  · rw [split_text, List.map_eq_append_iff] at cut
    obtain ⟨front, back, parts, rfl, cut⟩ := cut
    obtain ⟨line, rest, rfl, rfl, -⟩ := List.map_eq_cons_iff.mp cut
    rw [Nested, parts] at h
    obtain ⟨level, earlier, later⟩ := h.exists_middle
    have reached := earlier.final_eq (rise_written width)
    cases later with
    | cons start depth above tail =>
        rw [line.takeWhile_written width start, line.dropWhile_written width start,
          List.length_replicate, Int.natCast_mul, depth, reached, Int.zero_add,
          List.flatMap_def]

end Layout

/-- A value that is a plain text. -/
def Value.isPlainText : Value → Bool
  | text s _ => isPlain s
  | null | bool _ | int .. | real .. | list _ | node _ => false

/-- No switch and no group of one, at most one declarator, and names that are plain; that of a
declarator is not empty. -/
def Shape.isNeat (s : Store) : Shape → Bool
  | bare | program .. | empty | boolean _ | block _ | conditional .. => true
  | caseGroup .. | switch .. => false
  | declarator name _ => name.isPlainText && !name.isText ""
  | declaration declarators => (s.contents declarators).length ≤ 1
  | function name params _ => name.isPlainText && (s.contents params).all Value.isPlainText

theorem mem_intercalate {c : Char} {sep : List Char} {as : List (List Char)}
    (h : c ∈ sep.intercalate as) : c ∈ sep ∨ ∃ a ∈ as, c ∈ a := by
  cases as with
  | nil => cases h
  | cons a as =>
      rw [intercalate_cons_eq_flatMap, List.mem_append, List.mem_flatMap] at h
      rcases h with h | ⟨b, hb, h⟩
      · exact .inr ⟨a, by simp, h⟩
      · rcases List.mem_append.mp h with h | h
        · exact .inl h
        · exact .inr ⟨b, by simp [hb], h⟩

theorem isPlain_function {name : String} {params : List String} (hname : isPlain name)
    (hparams : ∀ param ∈ params, isPlain param) :
    isPlain ("function " ++ name ++ "(" ++ ", ".intercalate params ++ ") ") := by
  have list {c : Char} (other : c ∉ ", ".toList)
      (free : ∀ param ∈ params, c ∉ param.toList) :
      c ∉ [',', ' '].intercalate (params.map String.toList) := by
    intro mem
    rcases mem_intercalate mem with mem | ⟨_, mem, inside⟩
    · exact other mem
    · obtain ⟨param, hparam, rfl⟩ := List.mem_map.mp mem
      exact free param hparam inside
  obtain ⟨⟨opening, closing, one⟩, -⟩ := isPlain_iff.mp hname
  have free (param : String) (mem : param ∈ params) := (isPlain_iff.mp (hparams param mem)).1
  refine isPlain_iff.mpr ⟨?_, by simp⟩
  simp [opening, closing, one, list (by decide) fun p hp => (free p hp).1,
    list (by decide) fun p hp => (free p hp).2.1, list (by decide) fun p hp => (free p hp).2.2]

theorem Layout.nested_initial {name : String} (h : isPlain name) (some : name ≠ "") :
    (ofText name ++ ofText " = ").Nested := by
  obtain ⟨⟨opening, closing, one⟩, start⟩ := isPlain_iff.mp h
  have joined : ofText name ++ ofText " = " = ofText (name ++ " = ") := by
    rw [ofText, ofText, ofText, String.toList_append, ofChars_of_not_mem one,
      ofChars_of_not_mem (by simp [one] : '\n' ∉ name.toList ++ " = ".toList)]
    rfl
  rw [joined]
  refine nested_ofText (isPlain_iff.mpr ⟨by simp [opening, closing, one], ?_⟩)
  rw [String.toList_append, List.head?_append_of_ne_nil _ (by simpa using some)]
  exact start

namespace Store
variable {s : Store} {directive : String}

/-- Everything that a rendering of the node comes to is neat. -/
def NeatFrom (s : Store) (id : NodeId) : Prop :=
  ∀ x, Relation.ReflTransGen s.Edge id x → (s.shape x).isNeat s

/-- The value is no node, or one from which everything is neat. -/
def NeatBelow (s : Store) (v : Value) : Prop :=
  ∀ id, v = .node id → s.NeatFrom id

theorem NeatFrom.isNeat {id : NodeId} {shape : Shape} (h : s.NeatFrom id)
    (holds : s.Holds id shape) : shape.isNeat s :=
  holds.1 ▸ h id .refl

theorem NeatFrom.below {id : NodeId} {shape : Shape} (h : s.NeatFrom id)
    (holds : s.Holds id shape) {v : Value} (part : v ∈ shape.parts s) : s.NeatBelow v := by
  rintro x rfl
  have edge : s.Edge id x := by
    rw [Edge, holds.1]
    exact part
  exact fun y path => h y (.head edge path)

theorem exists_of_forall₂ {α β : Type} {R : α → β → Prop} {as : List α} {bs : List β}
    (h : List.Forall₂ R as bs) {b : β} (hb : b ∈ bs) : ∃ a ∈ as, R a b := by
  induction h with
  | nil => cases hb
  | cons head _ ih =>
      rcases List.mem_cons.mp hb with rfl | hb
      · exact ⟨_, by simp, head⟩
      · obtain ⟨a, ha, related⟩ := ih hb
        exact ⟨a, by simp [ha], related⟩

/-- Parts are laid out one by one. -/
theorem nested_layoutAll {id : NodeId} {shape : Shape} (neat : s.NeatFrom id)
    (holds : s.Holds id shape) {vs : List Value} {ts : List Tree}
    (parts : ∀ v ∈ vs, v ∈ shape.parts s) (unfolds : List.Forall₂ s.Unfolds vs ts)
    (ih : ∀ t ∈ ts, ∀ {v : Value}, s.Unfolds v t → s.NeatBelow v → (t.layout directive).Nested) :
    ∀ a ∈ Tree.layoutAll directive ts, a.Nested := by
  intro a ha
  rw [Tree.layoutAll_eq] at ha
  obtain ⟨t, ht, rfl⟩ := List.mem_map.mp ha
  obtain ⟨v, hv, unfolds⟩ := exists_of_forall₂ unfolds ht
  exact ih t ht unfolds (neat.below holds (parts v hv))

theorem nested_layout (plain : isPlain directive) (t : Tree) {v : Value} (h : s.Unfolds v t)
    (neat : s.NeatBelow v) : (t.layout directive).Nested := by
  induction t using Tree.induct generalizing v with
  | bare => exact Layout.nested_empty
  | program strict elements ih =>
      cases h with
      | program holds unfolds =>
          have inner := nested_layoutAll (neat _ rfl) holds (fun _ hv => hv) unfolds ih
          rw [Tree.layout]
          refine Layout.Nested.append ?_ (Layout.nested_concat inner)
          split
          · exact Layout.nested_opening plain
          · exact Layout.nested_empty
  | empty => exact Layout.nested_ofText (by decide)
  | boolean value => exact Layout.nested_ofText (by cases value <;> decide)
  | block statements ih =>
      cases h with
      | absentBlock _ => exact Layout.nested_braced_none
      | block holds unfolds =>
          rw [Tree.layout]
          exact Layout.nested_braced_some
            (nested_layoutAll (neat _ rfl) holds (fun _ hv => hv) unfolds (ih _ rfl))
  | conditional condition consequent alternative ihc iht ihe =>
      have opening : (Layout.ofText "if (").Nested := Layout.nested_ofText (by decide)
      have closing : (Layout.ofText ") ").Nested := Layout.nested_ofText (by decide)
      cases h with
      | conditional holds condition consequent =>
          have below := fun v => (neat _ rfl).below (v := v) holds
          rw [Tree.layout]
          exact ((opening.append (ihc condition (below _ (by simp [Shape.parts])))).append
            closing).append (iht consequent (below _ (by simp [Shape.parts])))
      | alternative holds condition consequent alternative =>
          have below := fun v => (neat _ rfl).below (v := v) holds
          have between : (Layout.ofText "else ").Nested := Layout.nested_ofText (by decide)
          rw [Tree.layout]
          exact ((((opening.append (ihc condition (below _ (by simp [Shape.parts])))).append
            closing).append (iht consequent (below _ (by simp [Shape.parts])))).append
            between).append (ihe _ rfl alternative (below _ (by simp [Shape.parts])))
  | caseGroup labels statements _ _ =>
      cases h with
      | caseGroup holds _ _ => cases (neat _ rfl).isNeat holds
  | switch discriminant groups _ _ =>
      cases h with
      | absentSwitch holds _ => cases (neat _ rfl).isNeat holds
      | switch holds _ _ => cases (neat _ rfl).isNeat holds
  | declarator name initial ih =>
      cases h with
      | declarator holds =>
          have named := (neat _ rfl).isNeat holds
          simp only [Shape.isNeat, Bool.and_eq_true] at named
          exact Layout.nested_ofText named.1
      | initial holds unfolds =>
          have named := (neat _ rfl).isNeat holds
          simp only [Shape.isNeat, Bool.and_eq_true, Bool.not_eq_true'] at named
          rw [Tree.layout]
          refine (Layout.nested_initial named.1 ?_).append
            (ih _ rfl unfolds ((neat _ rfl).below holds (by simp [Shape.parts])))
          simpa [Value.isText] using named.2
  | declaration declarators ih =>
      cases h with
      | declaration holds unfolds =>
          have few := of_decide_eq_true ((neat _ rfl).isNeat holds)
          rw [contents, unfolds.length_eq] at few
          have inner := nested_layoutAll (neat _ rfl) holds (fun _ hv => hv) unfolds ih
          rw [Tree.layout]
          refine Layout.Nested.append (.append (Layout.nested_ofText (by decide)) ?_)
            (Layout.nested_ofText (by decide))
          refine Layout.nested_series ?_ inner
          rw [Tree.layoutAll_eq, List.length_map]
          exact few
  | function name params body ih =>
      cases h with
      | function holds names unfolds =>
          have named := (neat _ rfl).isNeat holds
          simp only [Shape.isNeat, Bool.and_eq_true] at named
          rw [Tree.layout]
          refine (Layout.nested_ofText (isPlain_function named.1 fun param mem => ?_)).append
            (ih unfolds ((neat _ rfl).below holds (by simp [Shape.parts])))
          obtain ⟨v, hv, text⟩ := exists_of_forall₂ names mem
          obtain ⟨origin, rfl⟩ := Value.isText_iff.mp text
          exact List.all_eq_true.mp named.2 _ hv

/-- The text of a neat node has matching braces, and its lines are indented by their levels, at
every width that memory has room for. -/
theorem render_nested {settings : Settings} {width : Nat}
    (regular : settings.Regular width directive) (plain : isPlain directive) {id : NodeId}
    (sound : s.SoundFrom id) (acyclic : s.AcyclicFrom id) (neat : s.NeatFrom id) :
    (∃ text origin, s.render settings id = .ok (.text text origin) ∧
        Lines.Nested width text.toList) ∨
      ¬ settings.memory.holds width ∧ s.render settings id = .error .noMemory := by
  obtain ⟨t, ht⟩ := exists_unfolds sound acyclic
  have nested : (t.layout directive).Nested :=
    nested_layout plain t ht fun x same => Value.node.inj same ▸ neat
  refine (rendersAs_of_unfolds ht settings width directive regular).imp_left ?_
  rintro ⟨origin, rendered⟩
  exact ⟨_, origin, rendered, nested.text width⟩

theorem neatFrom_of_lt (h : ∀ i < s.nodes.size, (s.shape ⟨i⟩).isNeat s) (id : NodeId) :
    s.NeatFrom id := by
  intro x _
  by_cases hin : x.index < s.nodes.size
  · exact h x.index hin
  · rw [shape, node_of_size_le (Nat.le_of_not_lt hin)]
    rfl

/-- A strict program with a variable that is a function with two branches in its body, and a block
without statements after it. -/
def branching : Store :=
  ⟨#[.ofShape (.boolean (.bool true)), .ofShape .empty, .ofShape (.block (.list ⟨0⟩)),
      .ofShape (.conditional (.node ⟨0⟩) (.node ⟨2⟩) (.node ⟨2⟩)), .ofShape (.block (.list ⟨1⟩)),
      .ofShape (.function (.text "f") (.list ⟨2⟩) (.node ⟨4⟩)),
      .ofShape (.declarator (.text "x") (.node ⟨5⟩)), .ofShape (.declaration (.list ⟨3⟩)),
      .ofShape (.block .null), .ofShape (.program (.bool true) (.list ⟨4⟩))],
    #[[.node ⟨1⟩], [.node ⟨3⟩], [.text "a", .text "b"], [.node ⟨6⟩], [.node ⟨7⟩, .node ⟨8⟩]]⟩

theorem branching_nested : ∃ text origin,
    branching.render Settings.default ⟨9⟩ = .ok (.text text origin) ∧
      Lines.Nested 4 text.toList :=
  (render_nested Settings.regular_default (by decide) (soundFrom_of_lt (by decide) _)
    (acyclicFrom_of_lt (by decide) _) (neatFrom_of_lt (by decide) _)).resolve_right
      fun short => short.1 (by decide)

/-- A declaration of one variable. -/
def declared : Store :=
  ⟨#[.ofShape (.declarator (.text "x") .null), .ofShape (.declaration (.list ⟨0⟩))],
    #[[.node ⟨0⟩]]⟩

/-- Neat nodes of the right types that have no text: one for want of memory, others for want of a
part or for what was set on them. -/
theorem not_nested_of_typed :
    ((∀ i < declared.nodes.size,
        (declared.shape ⟨i⟩).isTyped declared ∧ (declared.shape ⟨i⟩).isNeat declared) ∧
      (∀ id, declared.AcyclicFrom id) ∧ 36028797018963968 < Nat.pow 2 63 ∧
      ¬ ∃ text origin, declared.render (.ofWidth 36028797018963968) ⟨1⟩ = .ok (.text text origin)) ∧
    (∀ i < hollow.nodes.size,
      (hollow.shape ⟨i⟩).isTyped hollow ∧ (hollow.shape ⟨i⟩).isNeat hollow) ∧
    (∀ id, hollow.AcyclicFrom id) ∧
    ∀ id ∈ [⟨1⟩, ⟨2⟩, ⟨3⟩],
      ¬ ∃ text origin, hollow.render Settings.default id = .ok (.text text origin) := by
  refine ⟨⟨by decide, acyclicFrom_of_lt (by decide), by decide, ?_⟩, by decide,
    acyclicFrom_of_lt (by decide), fun id hid => ?_⟩
  · rintro ⟨text, origin, h⟩
    have short : declared.render (.ofWidth 36028797018963968) ⟨1⟩ = .error .noMemory := by decide
    rw [short] at h
    cases h
  · rintro ⟨text, origin, h⟩
    simp only [List.mem_cons, List.not_mem_nil, or_false] at hid
    rcases hid with rfl | rfl | rfl <;> cases h

end Store
end ScriptGraph
