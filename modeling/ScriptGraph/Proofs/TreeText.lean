import ScriptGraph.Proofs.Reentry
import ScriptGraph.Proofs.Tree

/-!
A node that unfolds to a tree is rendered as the layout of the tree.
-/

namespace ScriptGraph

section Widths
variable (memory : Memory) {count : Value} {width : Nat}

theorem repeatCount_of_integer? (h : count.integer? = some (width : Int))
    (fits : width < Nat.pow 2 63) :
    repeatCount memory count = if memory.holds width then .ok width else .error .noMemory := by
  have word : fitsWord width = true := by
    simp only [fitsWord, decide_eq_true_eq]
    omega
  simp [repeatCount, h, word]

theorem checkWidth_of_integer? (h : count.integer? = some (width : Int)) :
    checkWidth count = .ok () := by
  cases count with
  | int n o | bool b => simp [checkWidth, h]
  | null | real _ _ | text _ _ | list _ | node _ => cases h

/-- Only the memory stands in the way of a text and a width. -/
theorem indentValue_of_integer? (s : Store) (h : count.integer? = some (width : Int))
    (fits : width < Nat.pow 2 63) (text : String) (origin : Origin) :
    indentValue memory s (.text text origin) count =
      if memory.holds width then .ok (indentText width text) else .error .noMemory := by
  rw [indentValue, checkWidth_of_integer? h, repeatCount_of_integer? memory h fits]
  cases memory.holds width <;> rfl

end Widths

/-- Settings of the right types, with a width that is not below zero. -/
structure Settings.Regular (settings : Settings) (width : Nat) (directive : String) : Prop where
  isWidth : settings.indentWidth.integer? = some (width : Int)
  fits : width < Nat.pow 2 63
  isDirective : settings.directive.isText directive

/-- The default settings except for the width. -/
def Settings.ofWidth (width : Nat) : Settings :=
  { Settings.default with indentWidth := .int width }

theorem Settings.regular_default : Settings.default.Regular 4 "\"use strict\"" :=
  ⟨rfl, by decide, rfl⟩

namespace Settings.Regular
variable {settings : Settings} {width : Nat} {directive : String}

theorem repeatCount (h : settings.Regular width directive) (room : settings.memory.holds width) :
    repeatCount settings.memory settings.indentWidth = .ok width := by
  rw [repeatCount_of_integer? settings.memory h.isWidth h.fits, if_pos room]

theorem separator (h : settings.Regular width directive) (room : settings.memory.holds width) :
    settings.separator = .ok (",\n" ++ spaces width) := by
  rw [Settings.separator, h.repeatCount room]
  rfl

theorem opening (h : settings.Regular width directive) (s : Store) :
    settings.opening s = .ok (directive ++ "\n\n") := by
  obtain ⟨origin, hd⟩ := Value.isText_iff.mp h.isDirective
  rw [Settings.opening, hd]
  rfl

theorem indentValue (h : settings.Regular width directive) (room : settings.memory.holds width)
    (s : Store) (text : String) (origin : Origin) :
    indentValue settings.memory s (.text text origin) settings.indentWidth =
      .ok (indentText width text) := by
  rw [indentValue_of_integer? settings.memory s h.isWidth h.fits, if_pos room]

end Settings.Regular

@[simp] theorem ok_bind {α β : Type} (a : α) (f : α → Except Fault β) :
    (Except.ok a >>= f) = f a := rfl

@[simp] theorem pure_eq_ok {α : Type} (a : α) : (pure a : Except Fault α) = .ok a := rfl

theorem forall₂_imp_of_mem {α β : Type} {R S : α → β → Prop} {as : List α} {bs : List β}
    (h : List.Forall₂ R as bs) (k : ∀ b ∈ bs, ∀ a, R a b → S a b) : List.Forall₂ S as bs := by
  induction h with
  | nil => exact .nil
  | cons head _ ih =>
      exact .cons (k _ (by simp) _ head) (ih fun b hb => k b (by simp [hb]))

theorem mapM_of_forall₂ {α β γ : Type} {f : α → Except Fault γ} {g : β → γ} {as : List α}
    {bs : List β} (h : List.Forall₂ (fun a b => f a = .ok (g b)) as bs) :
    as.mapM f = .ok (bs.map g) := by
  induction h with
  | nil => rfl
  | cons head _ ih => simp [List.mapM_cons, head, ih]

namespace Tree

def text (width : Nat) (directive : String) (t : Tree) : String :=
  (t.layout directive).text width

variable (width : Nat) (directive : String)

@[simp] theorem toList_text (t : Tree) :
    (t.text width directive).toList = (t.layout directive).hang width 0 :=
  Layout.toList_text width _

@[simp] theorem toList_indentText (t : Tree) :
    (indentText width (t.text width directive)).toList =
      List.replicate width ' ' ++ (t.layout directive).hang width 1 := by
  rw [indentText, String.toList_ofList, toList_text, Layout.indent_hang]

end Tree

namespace Store
variable {s : Store} {settings : Settings} {width : Nat} {directive : String}

/-- The value is rendered as the text of the tree. -/
def Writes (s : Store) (settings : Settings) (width : Nat) (directive : String) (v : Value)
    (t : Tree) : Prop :=
  ∃ origin, s.renderValue (s.render settings) v = .ok (.text (t.text width directive) origin)

theorem Holds.writes {id : NodeId} {shape : Shape} {t : Tree} {x : String} {origin : Origin}
    (h : s.Holds id shape)
    (hr : shape.render settings s (s.render settings) = .ok (.text x origin))
    (hx : x.toList = (t.layout directive).hang width 0) :
    s.Writes settings width directive (.node id) t := by
  have same : x = t.text width directive := by rw [← String.toList_inj, hx, t.toList_text]
  refine ⟨origin, ?_⟩
  rw [renderValue, render_eq, h.1, h.2, ← same]
  exact hr

namespace Writes
variable {v : Value} {t : Tree} {vs : List Value} {ts : List Tree}

theorem renderText (h : s.Writes settings width directive v t) :
    s.renderText (s.render settings) v = .ok (t.text width directive) := by
  obtain ⟨origin, h⟩ := h
  simp [Store.renderText, h, expectText]

theorem renderInner (regular : settings.Regular width directive)
    (room : settings.memory.holds width) (h : s.Writes settings width directive v t) :
    Shape.renderInner settings s (s.render settings) v =
      .ok (indentText width (t.text width directive)) := by
  obtain ⟨origin, h⟩ := h
  simp [Shape.renderInner, h, regular.indentValue room]

theorem mapM_renderText (h : List.Forall₂ (s.Writes settings width directive) vs ts) :
    vs.mapM (s.renderText (s.render settings)) = .ok (ts.map (Tree.text width directive)) :=
  mapM_of_forall₂ (h.imp fun _ _ hv => hv.renderText)

theorem mapM_renderInner (regular : settings.Regular width directive)
    (room : settings.memory.holds width)
    (h : List.Forall₂ (s.Writes settings width directive) vs ts) :
    vs.mapM (Shape.renderInner settings s (s.render settings)) =
      .ok (ts.map fun t => indentText width (t.text width directive)) :=
  mapM_of_forall₂ (h.imp fun _ _ hv => hv.renderInner regular room)

end Writes

theorem writes_program {id : NodeId} {strict : Bool} {l : ListId} {ts : List Tree}
    (regular : settings.Regular width directive)
    (h : s.Holds id (.program (.bool strict) (.list l)))
    (elements : List.Forall₂ (s.Writes settings width directive) (s.items l) ts) :
    s.Writes settings width directive (.node id) (.program strict ts) := by
  have parts := Writes.mapM_renderText elements
  cases strict with
  | false =>
      apply h.writes
      · simp only [Shape.render, Shape.renderOpening, isTrue, iterate, ok_bind, parts]
        rfl
      · simp [Tree.layout, Layout.hang_concat, Tree.layoutAll_eq, List.flatMap_map]
  | true =>
      apply h.writes
      · simp only [Shape.render, Shape.renderOpening, isTrue, if_true, iterate, ok_bind, parts,
          regular.opening]
        rfl
      · simp [Tree.layout, Layout.hang_concat, Tree.layoutAll_eq, List.flatMap_map, Layout.ofText]

/-- A line end in front of each part and one behind all of them, or one in front of all and one
behind each. -/
theorem flatMap_cons_append {α : Type} (f : α → List Char) (as : List α) :
    (as.flatMap fun a => '\n' :: f a) ++ ['\n'] = '\n' :: as.flatMap fun a => f a ++ ['\n'] := by
  induction as with
  | nil => rfl
  | cons a as ih => simp [ih]

theorem renderBody_list {l : ListId} {ts : List Tree} (regular : settings.Regular width directive)
    (room : settings.memory.holds width)
    (h : List.Forall₂ (s.Writes settings width directive) (s.items l) ts) :
    ∃ x, Shape.renderBody settings s (s.render settings) (.list l) = .ok x ∧
      '\x7b' :: x.toList ++ ['\x7d'] =
        (Layout.braced (ts.map (Tree.layout directive))).hang width 0 := by
  refine ⟨_, by simp [Shape.renderBody, iterate, Writes.mapM_renderInner regular room h]; rfl, ?_⟩
  have ends := flatMap_cons_append
    (fun t => List.replicate width ' ' ++ (t.layout directive).hang width 1) ts
  simp only [List.append_assoc] at ends
  simp [List.flatMap_map, newline, ← ends]

theorem writes_block {id : NodeId} {l : ListId} {ts : List Tree}
    (regular : settings.Regular width directive) (room : settings.memory.holds width)
    (h : s.Holds id (.block (.list l)))
    (statements : List.Forall₂ (s.Writes settings width directive) (s.items l) ts) :
    s.Writes settings width directive (.node id) (.block (some ts)) := by
  obtain ⟨x, hx, body⟩ := renderBody_list regular room statements
  apply h.writes
  · simp only [Shape.render, hx]
    rfl
  · simpa [Tree.layout, Tree.layoutAll_eq] using body

theorem writes_switch {id : NodeId} {v : Value} {l : ListId} {t : Tree} {ts : List Tree}
    (regular : settings.Regular width directive) (room : settings.memory.holds width)
    (h : s.Holds id (.switch v (.list l))) (discriminant : s.Writes settings width directive v t)
    (groups : List.Forall₂ (s.Writes settings width directive) (s.items l) ts) :
    s.Writes settings width directive (.node id) (.switch t (some ts)) := by
  obtain ⟨x, hx, body⟩ := renderBody_list regular room groups
  apply h.writes
  · simp only [Shape.render, hx, discriminant.renderText]
    rfl
  · simpa [Tree.layout, Tree.layoutAll_eq, Layout.ofText] using body

theorem writes_conditional {id : NodeId} {v w : Value} {t u : Tree}
    (h : s.Holds id (.conditional v w .null))
    (condition : s.Writes settings width directive v t)
    (consequent : s.Writes settings width directive w u) :
    s.Writes settings width directive (.node id) (.conditional t u none) := by
  apply h.writes
  · simp only [Shape.render, condition.renderText, consequent.renderText]
    rfl
  · simp [Tree.layout, Layout.ofText]

theorem writes_alternative {id other : NodeId} {v w : Value} {t u x : Tree}
    (h : s.Holds id (.conditional v w (.node other)))
    (condition : s.Writes settings width directive v t)
    (consequent : s.Writes settings width directive w u)
    (alternative : s.Writes settings width directive (.node other) x) :
    s.Writes settings width directive (.node id) (.conditional t u (some x)) := by
  apply h.writes
  · simp only [Shape.render, condition.renderText, consequent.renderText, alternative.renderText]
    rfl
  · simp [Tree.layout, Layout.ofText]

theorem writes_initial {id other : NodeId} {name : String} {origin : Origin} {t : Tree}
    (h : s.Holds id (.declarator (.text name origin) (.node other)))
    (initial : s.Writes settings width directive (.node other) t) :
    s.Writes settings width directive (.node id) (.declarator name (some t)) := by
  apply h.writes
  · simp only [Shape.render, expectStart, initial.renderText]
    rfl
  · simp [Tree.layout, Layout.ofText]

theorem expectPieces_of_forall₂ {vs : List Value} {names : List String} (position : Nat)
    (h : List.Forall₂ (fun v name => v.isText name) vs names) :
    s.expectPieces position vs = .ok names := by
  induction h generalizing position with
  | nil => rfl
  | cons head _ ih =>
      obtain ⟨origin, rfl⟩ := Value.isText_iff.mp head
      simp [expectPieces, ih]

theorem Writes.mapM_renderValue {vs : List Value} {ts : List Tree}
    (h : List.Forall₂ (s.Writes settings width directive) vs ts) :
    ∃ us, vs.mapM (s.renderValue (s.render settings)) = .ok us ∧
      s.expectPieces 0 us = .ok (ts.map (Tree.text width directive)) := by
  have texts : ∃ us, vs.mapM (s.renderValue (s.render settings)) = .ok us ∧
      List.Forall₂ (fun v name => v.isText name) us (ts.map (Tree.text width directive)) := by
    induction h with
    | nil => exact ⟨[], rfl, .nil⟩
    | cons head _ ih =>
        obtain ⟨origin, head⟩ := head
        obtain ⟨us, hus, tail⟩ := ih
        refine ⟨_ :: us, by simp [List.mapM_cons, head, hus]; rfl, ?_⟩
        exact .cons (Value.isText_iff.mpr ⟨origin, rfl⟩) tail
  obtain ⟨us, hus, texts⟩ := texts
  exact ⟨us, hus, expectPieces_of_forall₂ 0 texts⟩

theorem writes_declaration {id : NodeId} {l : ListId} {ts : List Tree}
    (regular : settings.Regular width directive) (room : settings.memory.holds width)
    (h : s.Holds id (.declaration (.list l)))
    (declarators : List.Forall₂ (s.Writes settings width directive) (s.items l) ts) :
    s.Writes settings width directive (.node id) (.declaration ts) := by
  obtain ⟨us, parts, pieces⟩ := Writes.mapM_renderValue declarators
  apply h.writes
  · simp only [Shape.render, iterate, ok_bind, parts, regular.separator room, pieces]
    rfl
  · simp [Tree.layout, Tree.layoutAll_eq, Layout.ofText, Layout.hang_series, newline, spaces,
      Function.comp_def]

theorem writes_function {id : NodeId} {name : String} {origin : Origin} {l : ListId}
    {names : List String} {v : Value} {t : Tree}
    (h : s.Holds id (.function (.text name origin) (.list l) v))
    (params : List.Forall₂ (fun v name => v.isText name) (s.items l) names)
    (body : s.Writes settings width directive v t) :
    s.Writes settings width directive (.node id) (.function name names t) := by
  apply h.writes
  · simp only [Shape.render, expectText, pieces, ok_bind, expectPieces_of_forall₂ 0 params,
      body.renderText]
    rfl
  · simp [Tree.layout, Layout.ofText]

/-- A label as it is written, without the line around it. -/
def labelText (width : Nat) (directive : String) : String ⊕ Tree → String
  | .inl name => name
  | .inr t => t.text width directive

theorem renderHead_of_label {v : Value} {label : String ⊕ Tree}
    (h : LabelUnfolds (s.Writes settings width directive) v label) :
    Shape.renderHead s (s.render settings) v =
      .ok ("case " ++ labelText width directive label ++ ":\n") := by
  cases h with
  | name text origin => rfl
  | node h =>
      obtain ⟨origin, h⟩ := h
      cases v with
      | node id =>
          rw [renderValue] at h
          simp [Shape.renderHead, display, h, expectWritten, labelText]
      | null | bool _ | int _ _ | real _ _ | text _ _ | list _ => simp [renderValue] at h

theorem layoutHeads_ne_nil {labels : List (String ⊕ Tree)} (h : labels ≠ []) :
    Tree.layoutHeads directive labels ≠ [] := by
  cases labels with
  | nil => exact absurd rfl h
  | cons label labels => cases label <;> simp [Tree.layoutHeads]

theorem layoutHeads_hang (labels : List (String ⊕ Tree)) :
    (Tree.layoutHeads directive labels).map (Layout.hang width 0) =
      labels.map fun label => ("case " ++ labelText width directive label ++ ":").toList := by
  induction labels with
  | nil => rfl
  | cons label labels ih =>
      cases label with
      | inl name => simp [Tree.layoutHeads, ih, labelText, Layout.ofText]
      | inr t => simp [Tree.layoutHeads, ih, labelText, Layout.ofText]

/-- Line ends behind the parts are line ends between them and one at the end. -/
theorem flatMap_append_newline {as : List (List Char)} (h : as ≠ []) :
    (as.flatMap fun a => a ++ ['\n']) = ['\n'].intercalate as ++ ['\n'] := by
  induction as with
  | nil => exact absurd rfl h
  | cons a as ih =>
      cases as with
      | nil => simp
      | cons b bs => simpa using ih (by simp)

theorem flatMap_newline_append (as : List (List Char)) (h : as ≠ []) :
    (as.flatMap fun a => '\n' :: a) = '\n' :: ['\n'].intercalate as := by
  induction as with
  | nil => exact absurd rfl h
  | cons a as ih =>
      cases as with
      | nil => simp
      | cons b bs => simpa using ih (by simp)

theorem renderHeads_list {l : ListId} {labels : List (String ⊕ Tree)}
    (h : List.Forall₂ (LabelUnfolds (s.Writes settings width directive)) (s.items l) labels) :
    ∃ heads, Shape.renderHeads s (s.render settings) (.list l) = .ok heads ∧
      (String.join heads).toList = (Layout.column
        (if labels = [] then [.ofText "default:"]
          else Tree.layoutHeads directive labels)).hang width 0 ++ ['\n'] := by
  by_cases hl : labels = []
  · rw [hl] at h ⊢
    have none := List.forall₂_nil_right_iff.mp h
    refine ⟨["default:\n"], by simp [Shape.renderHeads, isTrue, none], ?_⟩
    simp [Layout.hang_column, Layout.ofText]
  · have some : s.items l ≠ [] := fun e => hl (List.forall₂_nil_left_iff.mp (e ▸ h))
    have lines := mapM_of_forall₂ (h.imp fun _ _ hv => renderHead_of_label hv)
    refine ⟨_, by simp [Shape.renderHeads, isTrue, some, iterate, lines]; rfl, ?_⟩
    rw [if_neg hl, Layout.hang_column, newline, Nat.mul_zero, List.replicate_zero,
      ← flatMap_append_newline (by simpa using layoutHeads_ne_nil hl), layoutHeads_hang]
    simp [List.flatMap_map]

theorem writes_caseGroup {id : NodeId} {l m : ListId} {labels : List (String ⊕ Tree)}
    {ts : List Tree} (regular : settings.Regular width directive)
    (room : settings.memory.holds width)
    (h : s.Holds id (.caseGroup (.list l) (.list m)))
    (heads : List.Forall₂ (LabelUnfolds (s.Writes settings width directive)) (s.items l) labels)
    (statements : List.Forall₂ (s.Writes settings width directive) (s.items m) ts) :
    s.Writes settings width directive (.node id) (.caseGroup labels ts) := by
  have parts := Writes.mapM_renderInner regular room statements
  obtain ⟨xs, known, lines⟩ := renderHeads_list heads
  apply h.writes
  · simp only [Shape.render, known, iterate, ok_bind, parts]
    rfl
  · rw [Tree.layout, Layout.hang_below, String.toList_append, lines, List.append_assoc]
    congr 1
    by_cases hts : ts = []
    · simp [hts]
      rfl
    · have ends := flatMap_newline_append
        (ts.map fun t => List.replicate width ' ' ++ (t.layout directive).hang width 1)
        (by simpa using hts)
      rw [List.flatMap_map] at ends
      simp [hts, Tree.layoutAll_eq, List.flatMap_assoc, List.flatMap_map, newline, ends,
        Function.comp_def]

theorem writes_leaf {id : NodeId} {shape : Shape} {t : Tree} {x : String} {origin : Origin}
    (h : s.Holds id shape)
    (hr : shape.render settings s (s.render settings) = .ok (.text x origin))
    (hx : t.layout directive = .ofText x) : s.Writes settings width directive (.node id) t := by
  apply h.writes hr
  simp [hx, Layout.ofText]

theorem writes_absentSwitch {id : NodeId} {v : Value} {t : Tree} (h : s.Holds id (.switch v .null))
    (discriminant : s.Writes settings width directive v t) :
    s.Writes settings width directive (.node id) (.switch t none) := by
  apply h.writes
  · simp only [Shape.render, discriminant.renderText]
    rfl
  · simp [Tree.layout, Layout.ofText]

theorem writes_of_unfolds (regular : settings.Regular width directive)
    (room : settings.memory.holds width) (t : Tree) {v : Value} (h : s.Unfolds v t) :
    s.Writes settings width directive v t := by
  induction t using Tree.induct generalizing v with
  | bare =>
      cases h with
      | bare h => exact writes_leaf h rfl rfl
  | program strict elements ih =>
      cases h with
      | program h elements =>
          exact writes_program regular h (forall₂_imp_of_mem elements fun t ht _ => ih t ht)
  | empty =>
      cases h with
      | empty h => exact writes_leaf h rfl rfl
  | boolean value =>
      cases h with
      | boolean h => exact writes_leaf h rfl rfl
  | block statements ih =>
      cases h with
      | absentBlock h => exact writes_leaf h rfl rfl
      | block h statements =>
          exact writes_block regular room h
            (forall₂_imp_of_mem statements fun t ht _ => ih _ rfl t ht)
  | conditional condition consequent alternative ihc iht ihe =>
      cases h with
      | conditional h condition consequent =>
          exact writes_conditional h (ihc condition) (iht consequent)
      | alternative h condition consequent alternative =>
          exact writes_alternative h (ihc condition) (iht consequent) (ihe _ rfl alternative)
  | caseGroup labels statements ihl ihs =>
      cases h with
      | caseGroup h heads statements =>
          refine writes_caseGroup regular room h ?_
            (forall₂_imp_of_mem statements fun t ht _ => ihs t ht)
          refine forall₂_imp_of_mem heads fun label hlabel v hv => ?_
          cases hv with
          | name text origin => exact .name text origin
          | node hv => exact .node (ihl _ hlabel hv)
  | switch discriminant groups ihd ihg =>
      cases h with
      | absentSwitch h discriminant => exact writes_absentSwitch h (ihd discriminant)
      | switch h discriminant groups =>
          exact writes_switch regular room h (ihd discriminant)
            (forall₂_imp_of_mem groups fun t ht _ => ihg _ rfl t ht)
  | declarator name initial ih =>
      cases h with
      | declarator h => exact writes_leaf h rfl rfl
      | initial h initial => exact writes_initial h (ih _ rfl initial)
  | declaration declarators ih =>
      cases h with
      | declaration h declarators =>
          exact writes_declaration regular room h
            (forall₂_imp_of_mem declarators fun t ht _ => ih t ht)
  | function name params body ih =>
      cases h with
      | function h params body => exact writes_function h params (ih body)

theorem renderWithin_agreesUpTo_unbounded (settings : Settings) (n : Nat) (id : NodeId) :
    AgreesUpTo .noMemory (s.renderWithin settings n id)
      (s.renderWithin { settings with memory := .unbounded } n id) := by
  set other : Settings := { settings with memory := .unbounded }
  have widths : settings.indentWidth = other.indentWidth := rfl
  have directives : settings.directive = other.directive := rfl
  have room (v : Value) :
      AgreesUpTo .noMemory (repeatCount settings.memory v) (repeatCount other.memory v) := by
    unfold repeatCount
    split
    · exact .refl _
    · split
      · exact .refl _
      · split
        · exact .refl _
        · exact .inl rfl
  induction n generalizing id with
  | zero => exact .refl _
  | succ n ih =>
      unfold renderWithin
      split
      · exact .refl _
      · exact Shape.render_agreesUpTo widths directives room ih _

/-- The node is rendered as the tree at every width, except that a width can be too large for
the memory. -/
def RendersAs (s : Store) (id : NodeId) (t : Tree) : Prop :=
  ∀ settings width directive, Settings.Regular settings width directive →
    (∃ origin, s.render settings id = .ok (.text ((t.layout directive).text width) origin)) ∨
      ¬ settings.memory.holds width ∧ s.render settings id = .error .noMemory

theorem rendersAs_of_unfolds {id : NodeId} {t : Tree} (h : s.Unfolds (.node id) t) :
    s.RendersAs id t := by
  intro settings width directive regular
  by_cases room : settings.memory.holds width
  · exact .inl (writes_of_unfolds regular room t h)
  · have unbounded : ({ settings with memory := .unbounded } : Settings).Regular width directive :=
      ⟨regular.isWidth, regular.fits, regular.isDirective⟩
    obtain ⟨origin, hr⟩ := writes_of_unfolds unbounded rfl t h
    rcases renderWithin_agreesUpTo_unbounded settings (s.nodes.size + 1) id with
      short | same
    · exact .inr ⟨room, short⟩
    · exact .inl ⟨origin, same.trans hr⟩

end Store
end ScriptGraph
