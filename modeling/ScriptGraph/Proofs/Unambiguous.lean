import ScriptGraph.Proofs.Separation
import ScriptGraph.Proofs.Sound

/-!
Rendering is unambiguous: nodes that are rendered to the same text unfold to the same
tree. For a program that includes whether it is strict. Its text cannot be that of
another one with the directive in front, because blank lines stand inside of braces only.
-/

namespace ScriptGraph

/-- How far a text has been read: the number of braces that are open, and whether the last
character was the end of a line outside of all braces. -/
structure Cursor where
  braces : Nat
  fresh : Bool

namespace Cursor

/-- Read one character. There is no way on at a blank line outside of all braces, nor at a
brace that closes nothing. -/
def step (cursor : Cursor) (c : Char) : Option Cursor :=
  match c, cursor with
  | '\x7b', ⟨k, _⟩ => some ⟨k + 1, false⟩
  | '\x7d', ⟨0, _⟩ => none
  | '\x7d', ⟨k + 1, _⟩ => some ⟨k, false⟩
  | '\n', ⟨0, true⟩ => none
  | '\n', ⟨0, false⟩ => some ⟨0, true⟩
  | _, ⟨k, _⟩ => some ⟨k, false⟩

def read (cursor : Cursor) (cs : List Char) : Option Cursor :=
  cs.foldlM step cursor

theorem read_append (cursor : Cursor) (a b : List Char) :
    cursor.read (a ++ b) = (cursor.read a).bind fun next => next.read b :=
  List.foldlM_append

theorem step_word {c : Char} (h : isWordChar c) (k : Nat) (fresh : Bool) :
    step ⟨k, fresh⟩ c = some ⟨k, false⟩ := by
  have opening : c ≠ '\x7b' := by
    rintro rfl
    revert h
    decide
  have closing : c ≠ '\x7d' := by
    rintro rfl
    revert h
    decide
  have line : c ≠ '\n' := by
    rintro rfl
    revert h
    decide
  unfold step
  split <;> simp_all

end Cursor

/-- The text is read wherever so many braces are open, and leaves as many of them open. -/
def Passes (k : Nat) (cs : List Char) : Prop :=
  ∀ fresh, Cursor.read ⟨k, fresh⟩ cs = some ⟨k, false⟩

/-- The same for a text that does not start on a line of its own. -/
def Continues (k : Nat) (cs : List Char) : Prop :=
  Cursor.read ⟨k, false⟩ cs = some ⟨k, false⟩

section
variable {k : Nat} {a b : List Char}

theorem Passes.continues (h : Passes k a) : Continues k a :=
  h false

theorem Passes.append (ha : Passes k a) (hb : Continues k b) : Passes k (a ++ b) := by
  intro fresh
  rw [Cursor.read_append, ha fresh]
  exact hb

theorem Continues.append (ha : Continues k a) (hb : Continues k b) : Continues k (a ++ b) := by
  rw [Continues, Cursor.read_append, ha]
  exact hb

theorem Continues.flatMap {α : Type} {f : α → List Char} {as : List α}
    (h : ∀ a ∈ as, Continues k (f a)) : Continues k (as.flatMap f) := by
  induction as with
  | nil => rfl
  | cons a as ih =>
      rw [List.flatMap_cons]
      exact (h a (by simp)).append (ih fun b hb => h b (by simp [hb]))

theorem continues_word (h : ∀ c ∈ a, isWordChar c) : Continues k a := by
  induction a with
  | nil => rfl
  | cons c a ih =>
      rw [Continues, Cursor.read, List.foldlM_cons, Cursor.step_word (h c (by simp))]
      exact ih fun d hd => h d (by simp [hd])

theorem passes_identifier {name : String} (h : isIdentifier name) : Passes k name.toList := by
  obtain ⟨c, cs, hc, inside⟩ := exists_cons_of_isIdentifier h
  have word := (isIdentifier_iff.mp h).1.1.2
  intro fresh
  rw [hc, Cursor.read, List.foldlM_cons, Cursor.step_word inside]
  exact continues_word fun d hd => word d (by simp [hc, hd])

theorem read_newline_succ (width depth : Nat) : Passes (k + 1) (newline width depth) := by
  have spaces (n : Nat) : Continues (k + 1) (List.replicate n ' ') := by
    induction n with
    | zero => rfl
    | succ n ih => exact ih
  exact fun _ => spaces _

theorem read_newline (width depth : Nat) :
    ∃ fresh, Cursor.read ⟨k, false⟩ (newline width depth) = some ⟨k, fresh⟩ := by
  cases k with
  | succ k => exact ⟨false, read_newline_succ width depth false⟩
  | zero =>
      have spaces (n : Nat) : Passes 0 (List.replicate (n + 1) ' ') := by
        induction n with
        | zero => exact fun _ => rfl
        | succ n ih => exact fun _ => ih false
      rw [newline]
      cases width * depth with
      | zero => exact ⟨true, rfl⟩
      | succ n => exact ⟨false, spaces n true⟩

end

namespace Tree
variable {width : Nat} {directive : String} {depth : Nat} {k : Nat}

theorem passes_block {ts : Option (List Tree)}
    (h : ∀ list ∈ ts, ∀ t ∈ list, ∀ depth k, Passes (k + 1) (t.write width directive depth)) :
    Passes k ((block ts).write width directive depth) := by
  cases ts with
  | none => exact fun _ => rfl
  | some ts =>
      have lines : Continues (k + 1) (ts.flatMap fun t =>
          newline width (depth + 1) ++ t.write width directive (depth + 1)) :=
        Continues.flatMap fun t ht =>
          ((read_newline_succ _ _).append (h ts rfl t ht _ _).continues).continues
      intro fresh
      rw [write_block, List.cons_append, List.cons_append, Cursor.read, List.foldlM_cons]
      have inside := lines.append (read_newline_succ width depth).continues
      change Cursor.read ⟨k + 1, false⟩ _ = _
      rw [Cursor.read_append, inside]
      rfl

theorem passes_function {name : String} {params : List String} {body : Tree}
    (hname : name = "" ∨ isIdentifier name) (hparams : ∀ param ∈ params, isIdentifier param)
    (hbody : Passes k (body.write width directive depth)) :
    Passes k ((function name params body).write width directive depth) := by
  have names : Continues k name.toList := by
    rcases hname with rfl | hname
    · rfl
    · exact (passes_identifier hname).continues
  have lists : Continues k ([',', ' '].intercalate (params.map String.toList)) := by
    cases params with
    | nil => rfl
    | cons param params =>
        rw [List.map_cons, intercalate_cons_eq_flatMap, List.flatMap_map]
        have others : ∀ other ∈ params, Continues k ([',', ' '] ++ other.toList) := by
          intro other ho
          have word : Continues k other.toList :=
            (passes_identifier (hparams other (by simp [ho]))).continues
          exact Continues.append rfl word
        exact (passes_identifier (hparams param (by simp))).continues.append
          (Continues.flatMap others)
  have opening : Passes k "function ".toList := fun _ => rfl
  have bracket : Continues k ['('] := rfl
  have closing : Continues k ") ".toList := rfl
  rw [write_function _ _ _ _ hname hparams]
  exact ((((opening.append names).append bracket).append lists).append closing).append
    hbody.continues

theorem passes_caseGroup {labels : List (String ⊕ Tree)} {ts : List Tree}
    (names : ∀ name, .inl name ∈ labels → isIdentifier name)
    (nodes : ∀ t, .inr t ∈ labels → Passes (k + 1) (t.write width directive depth))
    (hts : ∀ t ∈ ts, Passes (k + 1) (t.write width directive (depth + 1))) :
    Passes (k + 1) ((caseGroup labels ts).write width directive depth) := by
  have label : ∀ label ∈ labels, Passes (k + 1) (writeLabel width directive depth label) := by
    intro label hl
    have opening : Passes (k + 1) "case ".toList := fun _ => rfl
    cases label with
    | inl name => exact (opening.append (passes_identifier (names name hl)).continues).append rfl
    | inr t => exact (opening.append (nodes t hl).continues).append rfl
  have heads : Passes (k + 1) (writeHeads width directive depth labels) := by
    cases labels with
    | nil => exact fun _ => rfl
    | cons first labels =>
        rw [writeHeads_cons]
        refine (label first (by simp)).append (Continues.flatMap fun other ho => ?_)
        exact ((read_newline_succ _ _).append (label other (by simp [ho])).continues).continues
  have tail : Continues (k + 1) (writeTail width directive depth ts) := by
    cases ts with
    | nil => exact (read_newline_succ _ _).continues
    | cons t ts =>
        rw [writeTail]
        refine Continues.flatMap fun u hu => ?_
        exact ((read_newline_succ _ _).append (hts u hu).continues).continues
  rw [write_caseGroup _ _ _ names]
  exact heads.append tail

theorem passes_declaration {ts : List Tree}
    (h : ∀ t ∈ ts, Passes k (t.write width directive depth)) :
    Passes k ((declaration ts).write width directive depth) := by
  cases ts with
  | nil => exact fun _ => rfl
  | cons t ts =>
      have opening : Passes k "var ".toList := fun _ => rfl
      have others : ∀ u ∈ ts, Continues k
          (',' :: newline width (depth + 1) ++ u.write width directive depth) := by
        intro u hu
        obtain ⟨fresh, line⟩ := read_newline (k := k) width (depth + 1)
        have comma : Cursor.read ⟨k, false⟩ (',' :: newline width (depth + 1)) =
            Cursor.read ⟨k, false⟩ (newline width (depth + 1)) := rfl
        rw [Continues, Cursor.read_append, comma, line]
        exact h u (by simp [hu]) fresh
      rw [write_declaration_cons]
      exact ((opening.append (h t (by simp)).continues).append (Continues.flatMap others)).append
        rfl

theorem continues_optional {before : String} {x : Option Tree}
    (hbefore : Continues k before.toList)
    (hx : ∀ t ∈ x, Passes k (t.write width directive depth)) :
    Continues k (writeOptional width directive depth before x) := by
  cases x with
  | none => rfl
  | some t => exact hbefore.append (hx t rfl).continues

/-- The braces in a tree match, and a line end outside of them is not followed by another. -/
theorem passes_of_fits {role : Role} {t : Tree} (h : Fits role t) :
    role ≠ .program → ∀ depth k, (role = .group → 0 < k) →
      Passes k (t.write width directive depth) := by
  induction h with
  | boolean value =>
      intro _ depth k _ fresh
      cases value <;> rfl
  | function _ hname hparams _ ih =>
      intro _ depth k _
      exact passes_function hname hparams (ih (by simp) depth k (by simp))
  | empty => exact fun _ _ _ _ _ => rfl
  | block _ ih =>
      intro _ depth k _
      exact passes_block fun list hl t ht depth k =>
        ih list hl t ht (by simp) depth (k + 1) (by simp)
  | conditional _ _ _ _ iht ihu ihx =>
      intro _ depth k _
      have opening : Passes k "if (".toList := fun _ => rfl
      have closing : Continues k ") ".toList := rfl
      have test := opening.append (iht (by simp) depth k (by simp)).continues
      rw [write_conditional]
      exact ((test.append closing).append (ihu (by simp) depth k (by simp)).continues).append
        (continues_optional rfl fun y hy => ihx y hy (by simp) depth k (by simp))
  | @switch t ts _ _ iht ihts =>
      intro _ depth k _
      have opening : Passes k "switch (".toList := fun _ => rfl
      have closing : Continues k ") ".toList := rfl
      have subject := opening.append (iht (by simp) depth k (by simp)).continues
      have body : Passes k ((block ts).write width directive depth) :=
        passes_block fun list hl t ht depth k =>
          ihts list hl t ht (by simp) depth (k + 1) (by simp)
      rw [write_switch]
      exact (subject.append closing).append body.continues
  | caseGroup names _ _ ihnodes ihts =>
      intro _ depth k hk
      obtain ⟨k, rfl⟩ := Nat.exists_eq_succ_of_ne_zero (Nat.ne_of_gt (hk rfl))
      exact passes_caseGroup names
        (fun t ht => ihnodes t ht (by simp) depth (k + 1) (by simp))
        (fun t ht => ihts t ht (by simp) (depth + 1) (k + 1) (by simp))
  | declaration _ ih =>
      intro _ depth k _
      exact passes_declaration fun t ht => ih t ht (by simp) depth k (by simp)
  | declarator hname _ ih =>
      intro _ depth k _
      rw [write_declarator _ _ _ hname]
      exact (passes_identifier hname).append
        (continues_optional rfl fun t ht => ih t ht (by simp) depth k (by simp))
  | program => exact fun hrole => absurd rfl hrole

/-- The directive in front of a program and the blank line after it are no part of a program. -/
theorem directive_append_ne {ts us : List Tree} (hts : ∀ t ∈ ts, Fits .statement t)
    (hus : ∀ u ∈ us, Fits .statement u) :
    directive.toList ++ ['\n', '\n'] ++ ts.flatMap (write width directive 0) ≠
      us.flatMap (write width directive 0) := by
  have continues {vs : List Tree} (hvs : ∀ v ∈ vs, Fits .statement v) (k : Nat) :
      Continues k (vs.flatMap (write width directive 0)) :=
    Continues.flatMap fun v hv => (passes_of_fits (hvs v hv) (by simp) 0 k (by simp)).continues
  intro h
  have whole := continues hus 0
  rw [← h, Continues, List.append_assoc, Cursor.read_append] at whole
  obtain ⟨⟨k, fresh⟩, -, rest⟩ := Option.bind_eq_some_iff.mp whole
  rw [Cursor.read_append] at rest
  cases k with
  | zero => cases fresh <;> cases rest
  | succ k =>
      have lines : Cursor.read ⟨k + 1, fresh⟩ ['\n', '\n'] = some ⟨k + 1, false⟩ := rfl
      rw [lines] at rest
      have inside := (continues hts (k + 1)).symm.trans rest
      cases inside

theorem program_inj {ts us : List Tree} (hts : ∀ t ∈ ts, Fits .statement t)
    (hus : ∀ u ∈ us, Fits .statement u)
    (h : ts.flatMap (write width directive 0) = us.flatMap (write width directive 0)) :
    ts = us := by
  have start {t : Tree} (ht : Fits .statement t) (Z : List Char) :
      ∃ u, Fits .statement u ∧ (t.write width directive 0 ++ Z).head? = some u.lead :=
    ⟨t, ht, head?_write_append ht (.inr (.inl rfl)) Z⟩
  have follow (t : Tree) {Z : List Char}
      (hZ : (∃ u, Fits .statement u ∧ Z.head? = some u.lead) ∨ Z = []) : Follow .statement t Z := by
    intro _ e
    rcases hZ with ⟨u, hu, hZ⟩ | rfl
    · have lead : u.lead = 'e' := Option.some.inj (hZ.symm.trans e)
      exact absurd (lead ▸ lead_mem_of_statement hu) (by decide)
    · cases e
  have one : ∀ t ∈ ts, ∀ u ∈ us, ∀ Z W,
      (∃ u, Fits .statement u ∧ Z.head? = some u.lead) ∨ Z = [] →
      (∃ u, Fits .statement u ∧ W.head? = some u.lead) ∨ W = [] →
      t.write width directive 0 ++ Z = u.write width directive 0 ++ W → t = u ∧ Z = W :=
    fun t ht u hu Z W hZ hW h => separates_of_fits (hts t ht) (by simp) 0 u Z W (hus u hu)
      (follow t hZ) (follow u hW) h
  refine (flatMap_append_inj ?_ (fun t ht => start (hts t ht)) (fun u hu => start (hus u hu)) one
    rfl rfl (by simpa using h)).1
  rintro Z ⟨u, -, hZ⟩ rfl
  cases hZ

/-- What is written tells the trees of a role apart. -/
theorem write_inj {role : Role} {t u : Tree} (ht : Fits role t) (hu : Fits role u)
    (h : t.write width directive 0 = u.write width directive 0) : t = u := by
  by_cases hrole : role = .program
  · subst hrole
    cases ht with
    | function hrole => simp at hrole
    | @program ts strict hts =>
        cases hu with
        | function hrole => simp at hrole
        | @program us strict' hus =>
            rw [write_program, write_program] at h
            cases strict <;> cases strict'
            · rw [program_inj hts hus (by simpa using h)]
            · exact absurd (by simpa using h.symm) (directive_append_ne hus hts)
            · exact absurd (by simpa using h) (directive_append_ne hts hus)
            · rw [program_inj hts hus (by simpa using h)]
  · have follow (t : Tree) : Follow role t [] := by
      cases role <;> simp [Follow]
    have same : t.write width directive 0 ++ [] = u.write width directive 0 ++ [] := by rw [h]
    exact (separates_of_fits ht hrole 0 u [] [] hu (follow t) (follow u) same).1

end Tree

namespace Store
variable {s s' : Store} {id id' : NodeId} {t t' : Tree} {role : Role}
variable {settings : Settings} {width : Nat} {directive : String}

theorem text_eq_of_render (regular : settings.Regular width directive)
    (h : s.Unfolds (.node id) t) {text : String} {origin : Origin}
    (hr : s.render settings id = .ok (.text text origin)) : text = t.text width directive := by
  rcases rendersAs_of_unfolds h settings width directive regular with ⟨_, written⟩ | ⟨-, short⟩
  · rw [written] at hr
    cases hr
    rfl
  · rw [short] at hr
    cases hr

/-- Of two nodes that fit the same role, at any one width, the texts are the same exactly when
the trees are. -/
theorem render_unambiguous (regular : settings.Regular width directive)
    (h : s.Unfolds (.node id) t) (h' : s'.Unfolds (.node id') t')
    (fits : t.Fits role) (fits' : t'.Fits role) {text text' : String} {origin origin' : Origin}
    (hr : s.render settings id = .ok (.text text origin))
    (hr' : s'.render settings id' = .ok (.text text' origin')) : text = text' ↔ t = t' := by
  rw [text_eq_of_render regular h hr, text_eq_of_render regular h' hr']
  constructor
  · intro same
    apply Tree.write_inj fits fits'
    rw [Tree.write, Tree.write, ← Tree.toList_text, same, Tree.toList_text]
  · rintro rfl
    rfl

theorem sample_unfolds_declaration : sample.Unfolds (.node ⟨3⟩)
    (.declaration [.declarator "x" none, .declarator "y" (some (.boolean true))]) :=
  .declaration ⟨rfl, rfl⟩
    (.cons (.declarator ⟨rfl, rfl⟩) (.cons (.initial ⟨rfl, rfl⟩ (.boolean ⟨rfl, rfl⟩)) .nil))

theorem sample_unambiguous : ∃ text text' origin origin',
    sample.render .default ⟨3⟩ = .ok (.text text origin) ∧
      sample.render .default ⟨4⟩ = .ok (.text text' origin') ∧ text ≠ text' := by
  have fits : Tree.Fits .statement
      (.declaration [.declarator "x" none, .declarator "y" (some (.boolean true))]) := by
    refine .declaration fun t ht => ?_
    simp only [List.mem_cons, List.not_mem_nil, or_false] at ht
    rcases ht with rfl | rfl
    · exact .declarator (by decide) (by simp)
    · exact .declarator (by decide) (by simpa using Tree.Fits.boolean true)
  have outer : sample.Unfolds (.node ⟨4⟩) (.block (some [_])) :=
    .block (l := ⟨1⟩) ⟨rfl, rfl⟩ (.cons sample_unfolds_declaration .nil)
  obtain ⟨origin, hr⟩ :=
    writes_of_unfolds Settings.regular_default (by decide) _ sample_unfolds_declaration
  obtain ⟨origin', hr'⟩ := writes_of_unfolds Settings.regular_default (by decide) _ outer
  refine ⟨_, _, origin, origin', hr, hr', fun same => ?_⟩
  have trees := (render_unambiguous Settings.regular_default sample_unfolds_declaration outer fits
    (.block (by simpa using fits)) hr hr').mp same
  cases trees

end Store
end ScriptGraph
