import ScriptGraph.Proofs.Calls

/-!
Widths below zero. Indentation refuses them, and the separator of declarators takes them for none.
So a rendering fails where something is indented on the way; everywhere else it comes to the text
at width zero, because nothing asks for the width that could tell the two apart.
-/

namespace ScriptGraph

/-- Settings of the right types, with a width below zero. -/
structure Settings.Negative (settings : Settings) (width : Int) (directive : String) : Prop where
  isWidth : settings.indentWidth.integer? = some width
  fits : -Nat.pow 2 63 ≤ width
  below : width < 0
  isDirective : settings.directive.isText directive

/-- The settings with a width of zero. -/
def Settings.flat (settings : Settings) : Settings :=
  { settings with indentWidth := .int 0 }

namespace Settings
variable {settings : Settings} {width : Int} {directive : String}

theorem holds_zero (settings : Settings) : settings.memory.holds 0 := by
  unfold Memory.holds
  split <;> simp

namespace Negative

theorem regular_flat (h : settings.Negative width directive) :
    settings.flat.Regular 0 directive :=
  ⟨rfl, by decide, h.isDirective⟩

theorem checkWidth (h : settings.Negative width directive) :
    checkWidth settings.indentWidth = .error (.negativeWidth width.repr) := by
  have number := h.isWidth
  cases hw : settings.indentWidth with
  | int n o | bool b =>
      rw [hw] at number
      simp [ScriptGraph.checkWidth, number, h.below]
  | null | real _ _ | text _ _ | list _ | node _ =>
      rw [hw] at number
      cases number

theorem indentValue (h : settings.Negative width directive) (s : Store) (v : Value) :
    indentValue settings.memory s v settings.indentWidth =
      .error (.negativeWidth width.repr) := by
  rw [ScriptGraph.indentValue, h.checkWidth]
  rfl

theorem separator (h : settings.Negative width directive) :
    settings.separator = settings.flat.separator := by
  have fits := h.fits
  have below := h.below
  have word : fitsWord width = true := by
    simp only [fitsWord, decide_eq_true_eq]
    omega
  have none : width.toNat = 0 := by omega
  have count : repeatCount settings.memory settings.indentWidth = .ok 0 := by
    simp [repeatCount, h.isWidth, word, none, settings.holds_zero]
  rw [Settings.separator, count, h.regular_flat.separator settings.flat.holds_zero]
  rfl

end Negative
end Settings

namespace Shape

/-- Whether a rendering of the shape indents something. -/
def indents (s : Store) : Shape → Bool
  | block body | caseGroup _ body | switch _ body => s.contents body ≠ []
  | bare | program .. | empty | boolean _ | conditional .. | declarator .. | declaration _
  | function .. => false

variable {settings : Settings} {width : Int} {directive : String} {s : Store}
variable {f : NodeId → Except Fault Value} {body : Value}

/-- A body without anything in it is not indented. -/
theorem renderBody_flat (typed : body = .null ∨ s.isListOf Value.isNode body)
    (bare : s.contents body = []) :
    renderBody settings s f body = renderBody settings.flat s f body := by
  rcases typed with rfl | typed
  · rfl
  · obtain ⟨l, rfl, -⟩ := Store.isListOf_iff.mp typed
    have none : s.items l = [] := bare
    simp only [renderBody, Store.iterate, none, ok_bind]
    rfl

section
variable (negative : settings.Negative width directive)
include negative

theorem renderInner_ne_ok (v : Value) (x : String) : renderInner settings s f v ≠ .ok x := by
  intro h
  obtain ⟨u, -, indented⟩ := bind_eq_ok.mp h
  rw [negative.indentValue] at indented
  cases indented

theorem mapM_renderInner_ne_ok {vs : List Value} (full : vs ≠ []) (xs : List String) :
    vs.mapM (renderInner settings s f) ≠ .ok xs := by
  intro h
  obtain ⟨v, hv⟩ := List.exists_mem_of_ne_nil vs full
  obtain ⟨x, hx⟩ := ok_of_mapM h v hv
  exact renderInner_ne_ok negative v x hx

theorem renderBody_ne_ok (full : s.contents body ≠ []) (x : String) :
    renderBody settings s f body ≠ .ok x := by
  obtain ⟨u, hu⟩ := List.exists_mem_of_ne_nil _ full
  have present : body ≠ .null := by
    rintro rfl
    exact full rfl
  intro h
  rw [renderBody, if_neg present, Store.iterate_of_mem hu, ok_bind] at h
  obtain ⟨xs, hxs, -⟩ := bind_eq_ok.mp h
  exact mapM_renderInner_ne_ok negative full xs hxs

/-- There is no indenting by a width below zero. -/
theorem render_ne_ok_of_indents {shape : Shape} (h : shape.indents s) (v : Value) :
    shape.render settings s f ≠ .ok v := by
  intro done
  cases shape with
  | block body =>
      obtain ⟨x, hx, -⟩ := bind_eq_ok.mp done
      exact renderBody_ne_ok negative (by simpa [indents] using h) x hx
  | switch discriminant body =>
      obtain ⟨subject, -, done⟩ := bind_eq_ok.mp done
      obtain ⟨x, hx, -⟩ := bind_eq_ok.mp done
      exact renderBody_ne_ok negative (by simpa [indents] using h) x hx
  | caseGroup labels body =>
      have full : s.contents body ≠ [] := by simpa [indents] using h
      obtain ⟨u, hu⟩ := List.exists_mem_of_ne_nil _ full
      obtain ⟨heads, -, done⟩ := bind_eq_ok.mp done
      rw [Store.iterate_of_mem hu, ok_bind] at done
      obtain ⟨xs, hxs, -⟩ := bind_eq_ok.mp done
      exact mapM_renderInner_ne_ok negative full xs hxs
  | bare | program _ _ | empty | boolean _ | conditional _ _ _ | declarator _ _ | declaration _
  | function _ _ _ => cases h

theorem render_flat_of_not_indents {shape : Shape} (typed : shape.isTyped s)
    (h : shape.indents s = false) :
    shape.render settings s f = shape.render settings.flat s f := by
  cases shape with
  | block body =>
      simp only [isTyped, Bool.or_eq_true, decide_eq_true_eq] at typed
      have bare : s.contents body = [] := by simpa [indents] using h
      rw [render, renderBody_flat typed bare, render]
  | switch discriminant body =>
      simp only [isTyped, Bool.and_eq_true, Bool.or_eq_true, decide_eq_true_eq] at typed
      have bare : s.contents body = [] := by simpa [indents] using h
      rw [render, renderBody_flat typed.2 bare, render]
  | caseGroup labels body =>
      simp only [isTyped, Bool.and_eq_true] at typed
      obtain ⟨l, rfl, -⟩ := Store.isListOf_iff.mp typed.2
      have none : s.items l = [] := show s.contents (.list l) = [] by simpa [indents] using h
      simp only [render, Store.iterate, none, ok_bind]
      rfl
  | declaration declarators => simp only [render, negative.separator]
  | bare | program _ _ | empty | boolean _ | conditional _ _ _ | declarator _ _
  | function _ _ _ => rfl

end
end Shape

namespace Store
variable {s : Store} {settings : Settings} {width : Int} {directive : String} {id : NodeId}

/-- Somewhere in the rendering of a node something is indented. -/
def Indents (s : Store) (id : NodeId) : Prop :=
  ∃ x, Relation.ReflTransGen s.Edge id x ∧ (s.shape x).indents s

section
variable (negative : settings.Negative width directive)
include negative

/-- A width below zero makes a rendering fail, or no difference at all. -/
theorem renderWithin_agreesUpTo_flat (n : Nat) (id : NodeId) :
    AgreesUpTo (.negativeWidth width.repr) (s.renderWithin settings n id)
      (s.renderWithin settings.flat n id) := by
  induction n generalizing id with
  | zero => exact .refl _
  | succ n ih =>
      unfold renderWithin
      split
      · exact .refl _
      · exact Shape.render_agreesUpTo_of_indent (fun u => .inl (negative.indentValue s u))
          (.inr negative.separator) rfl ih _

theorem render_ne_ok_of_indents (h : s.Indents id) (v : Value) : s.render settings id ≠ .ok v := by
  obtain ⟨x, path, indents⟩ := h
  -- The rendering of the node that indents has not come to an end at any depth.
  have stuck (n : Nat) (u : Value) : s.renderWithin settings n x ≠ .ok u := by
    cases n with
    | zero => rintro ⟨⟩
    | succ n =>
        unfold renderWithin
        split
        · rintro ⟨⟩
        · exact Shape.render_ne_ok_of_indents negative indents u
  intro done
  rcases Relation.reflTransGen_iff_eq_or_transGen.mp path with rfl | path
  · exact stuck _ _ done
  · obtain ⟨m, -, u, hu⟩ := ok_of_path done path
    exact stuck m u hu

theorem renderWithin_flat (sound : s.SoundFrom id) (h : ¬ s.Indents id) (n : Nat) :
    s.renderWithin settings n id = s.renderWithin settings.flat n id := by
  induction n generalizing id with
  | zero => rfl
  | succ n ih =>
      have typed := isTyped_of_isSound (sound id .refl)
      have plain : (s.shape id).indents s = false :=
        Bool.eq_false_iff.mpr fun indents => h ⟨id, .refl, indents⟩
      have parts : (s.shape id).render settings.flat s (s.renderWithin settings n) =
          (s.shape id).render settings.flat s (s.renderWithin settings.flat n) := by
        refine Shape.render_congr fun c edge => ih (sound.of_edge edge) ?_
        rintro ⟨x, path, indents⟩
        exact h ⟨x, .head edge path, indents⟩
      simp only [renderWithin, Shape.render_flat_of_not_indents negative typed plain, parts]

/-- Below zero a rendering fails for the sake of the width exactly if it indents something, and
for nothing else. Otherwise the text is that at width zero. -/
theorem render_below_zero (sound : s.SoundFrom id) (acyclic : s.AcyclicFrom id) :
    ((∃ fault, s.render settings id = .error fault ∧ fault.label = "ValueError") ↔
      s.Indents id) ∧
    (¬ s.Indents id → ∃ text origin, s.render settings id = .ok (.text text origin) ∧
      s.render settings.flat id = .ok (.text text origin)) ∧
    ∀ fault, s.render settings id = .error fault → fault = .negativeWidth width.repr := by
  have close := renderWithin_agreesUpTo_flat (s := s) negative (s.nodes.size + 1) id
  obtain ⟨text, origin, atZero⟩ : ∃ text origin, s.render settings.flat id =
      .ok (.text text origin) :=
    (render_text_of_acyclicFrom negative.regular_flat sound acyclic).resolve_right
      fun short => short.1 settings.flat.holds_zero
  have same (h : ¬ s.Indents id) : s.render settings id = .ok (.text text origin) :=
    (renderWithin_flat negative sound h _).trans atZero
  have fails (h : s.Indents id) : s.render settings id = .error (.negativeWidth width.repr) :=
    close.resolve_right fun equal => render_ne_ok_of_indents negative h _ (equal.trans atZero)
  refine ⟨⟨?_, fun h => ⟨_, fails h, rfl⟩⟩, fun h => ⟨text, origin, same h, atZero⟩, ?_⟩
  · rintro ⟨fault, failed, -⟩
    by_contra h
    rw [same h] at failed
    cases failed
  · intro fault failed
    by_cases h : s.Indents id
    · rw [fails h] at failed
      cases failed
      rfl
    · rw [same h] at failed
      cases failed

end

/-- The default settings with a width of minus one. -/
def shrunk : Settings :=
  { Settings.default with indentWidth := .int (-1) }

theorem negative_shrunk : shrunk.Negative (-1) "\"use strict\"" :=
  ⟨rfl, by decide, by decide, rfl⟩

theorem not_indents_of_lt (h : ∀ i < s.nodes.size, (s.shape ⟨i⟩).indents s = false)
    (id : NodeId) : ¬ s.Indents id := by
  rintro ⟨x, -, indents⟩
  by_cases hin : x.index < s.nodes.size
  · rw [h x.index hin] at indents
    cases indents
  · rw [shape, node_of_size_le (Nat.le_of_not_lt hin)] at indents
    cases indents

/-- A declaration of two variables, the second with a switch without groups around a block without
statements for an initial value. -/
def unindented : Store :=
  ⟨#[.ofShape (.declarator (.text "x") .null), .ofShape (.block (.list ⟨0⟩)),
      .ofShape (.switch (.node ⟨1⟩) .null), .ofShape (.declarator (.text "y") (.node ⟨2⟩)),
      .ofShape (.declaration (.list ⟨1⟩))],
    #[[], [.node ⟨0⟩, .node ⟨3⟩]]⟩

theorem sample_and_unindented_below_zero :
    (∃ fault, sample.render shrunk ⟨4⟩ = .error fault ∧ fault.label = "ValueError") ∧
      ∃ text origin, unindented.render shrunk ⟨4⟩ = .ok (.text text origin) ∧
        unindented.render shrunk.flat ⟨4⟩ = .ok (.text text origin) := by
  constructor
  · exact (render_below_zero negative_shrunk sample_sound sample_acyclic).1.mpr
      ⟨⟨4⟩, .refl, by decide⟩
  · exact (render_below_zero negative_shrunk (soundFrom_of_lt (by decide) _)
      (acyclicFrom_of_lt (by decide) _)).2.1 (not_indents_of_lt (by decide) _)

/-- Nodes of the right types where nothing is indented, and which fail for something else. -/
theorem not_text_below_zero_of_typed :
    (∀ i < hollow.nodes.size, (hollow.shape ⟨i⟩).isTyped hollow) ∧
      (∀ id, hollow.AcyclicFrom id) ∧ (∀ id, ¬ hollow.Indents id) ∧
      ∀ id ∈ [⟨1⟩, ⟨2⟩, ⟨3⟩],
        ∃ fault, hollow.render shrunk id = .error fault ∧ fault.label ≠ "ValueError" := by
  refine ⟨by decide, acyclicFrom_of_lt (by decide), not_indents_of_lt (by decide), ?_⟩
  intro id hid
  simp only [List.mem_cons, List.not_mem_nil, or_false] at hid
  rcases hid with rfl | rfl | rfl
  · exact ⟨_, rfl, by decide⟩
  · exact ⟨_, rfl, by decide⟩
  · exact ⟨_, rfl, by decide⟩

end Store
end ScriptGraph
