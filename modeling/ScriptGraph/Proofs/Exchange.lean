import ScriptGraph.Proofs.Correspondence

/-!
Exchange of parts. Of the nodes below it a rendering takes nothing but their texts, and of a label
nothing but what it is written as. So a part can be exchanged for another one with the same text,
at any depth and in any number of places, and the text of the whole stays the same.
-/

namespace ScriptGraph

/-- One text, wherever each of the two comes from. -/
inductive SameText : Value → Value → Prop
  | intro (text : String) (origin origin' : Origin) :
      SameText (.text text origin) (.text text origin')

theorem Agrees.error_iff {α β : Type} {R : α → β → Prop} {x : Except Fault α} {y : Except Fault β}
    (h : Agrees R x y) (fault : Fault) : x = .error fault ↔ y = .error fault := by
  cases h with
  | ok _ => simp
  | error _ => simp

theorem Agrees.text_iff {x y : Except Fault Value} (h : Agrees SameText x y) (text : String) :
    (∃ origin, x = .ok (.text text origin)) ↔ ∃ origin, y = .ok (.text text origin) := by
  cases h with
  | ok same =>
      cases same
      simp
  | error _ => simp

/-- Both parts are missing, or they are nodes that are paired. -/
inductive Optionally (R : Value → Value → Prop) : Value → Value → Prop
  | null : Optionally R .null .null
  | node {a b : NodeId} (h : R (.node a) (.node b)) : Optionally R (.node a) (.node b)

/-- Labels that can be exchanged: a text for the same text, a node for the one it is paired with,
and a node for the text that it is written as, either way. -/
inductive LabelExchanged (settings : Settings) (s s' : Store) (R : Value → Value → Prop) :
    Value → Value → Prop
  | text (text : String) (origin origin' : Origin) :
      LabelExchanged settings s s' R (.text text origin) (.text text origin')
  | node {a b : NodeId} (h : R (.node a) (.node b)) :
      LabelExchanged settings s s' R (.node a) (.node b)
  | forText {a : NodeId} {text : String} {origin : Origin} (origin' : Origin)
      (h : s.render settings a = .ok (.text text origin)) :
      LabelExchanged settings s s' R (.node a) (.text text origin')
  | forNode {b : NodeId} {text : String} {origin' : Origin} (origin : Origin)
      (h : s'.render settings b = .ok (.text text origin')) :
      LabelExchanged settings s s' R (.text text origin) (.node b)

/-- Shapes of one kind whose fields have the types they are annotated with. The children are paired
one by one, and all else is the same. -/
inductive Shape.Exchanged (settings : Settings) (s s' : Store) (R : Value → Value → Prop) :
    Shape → Shape → Prop
  | bare : Exchanged settings s s' R .bare .bare
  | program (strict : Bool) {l l' : ListId}
      (elements : List.Forall₂ R (s.items l) (s'.items l')) :
      Exchanged settings s s' R (.program (.bool strict) (.list l))
        (.program (.bool strict) (.list l'))
  | empty : Exchanged settings s s' R .empty .empty
  | boolean (value : Bool) :
      Exchanged settings s s' R (.boolean (.bool value)) (.boolean (.bool value))
  | absentBlock : Exchanged settings s s' R (.block .null) (.block .null)
  | block {l l' : ListId} (statements : List.Forall₂ R (s.items l) (s'.items l')) :
      Exchanged settings s s' R (.block (.list l)) (.block (.list l'))
  | conditional {a a' : NodeId} {v v' w w' : Value} (condition : R (.node a) (.node a'))
      (consequent : Optionally R v v') (alternative : Optionally R w w') :
      Exchanged settings s s' R (.conditional (.node a) v w) (.conditional (.node a') v' w')
  | caseGroup {l l' m m' : ListId}
      (labels : List.Forall₂ (LabelExchanged settings s s' R) (s.items l) (s'.items l'))
      (statements : List.Forall₂ R (s.items m) (s'.items m')) :
      Exchanged settings s s' R (.caseGroup (.list l) (.list m)) (.caseGroup (.list l') (.list m'))
  | absentSwitch {a a' : NodeId} (discriminant : R (.node a) (.node a')) :
      Exchanged settings s s' R (.switch (.node a) .null) (.switch (.node a') .null)
  | switch {a a' : NodeId} {l l' : ListId} (discriminant : R (.node a) (.node a'))
      (groups : List.Forall₂ R (s.items l) (s'.items l')) :
      Exchanged settings s s' R (.switch (.node a) (.list l)) (.switch (.node a') (.list l'))
  | declarator (name : String) (origin origin' : Origin) {v v' : Value}
      (initial : Optionally R v v') :
      Exchanged settings s s' R (.declarator (.text name origin) v)
        (.declarator (.text name origin') v')
  | declaration {l l' : ListId} (declarators : List.Forall₂ R (s.items l) (s'.items l')) :
      Exchanged settings s s' R (.declaration (.list l)) (.declaration (.list l'))
  | function (name : String) (origin origin' : Origin) {l l' : ListId} {v v' : Value}
      (params : List.Forall₂ SameText (s.items l) (s'.items l')) (body : Optionally R v v') :
      Exchanged settings s s' R (.function (.text name origin) (.list l) v)
        (.function (.text name origin') (.list l') v')

section
variable {settings : Settings} {s s' : Store} {R S : Value → Value → Prop}
variable (le : ∀ u u', R u u' → S u u')
include le

theorem Optionally.mono {v v' : Value} (h : Optionally R v v') : Optionally S v v' := by
  cases h with
  | null => exact .null
  | node h => exact .node (le _ _ h)

theorem LabelExchanged.mono {v v' : Value} (h : LabelExchanged settings s s' R v v') :
    LabelExchanged settings s s' S v v' := by
  cases h with
  | text text origin origin' => exact .text text origin origin'
  | node h => exact .node (le _ _ h)
  | forText origin' h => exact .forText origin' h
  | forNode origin h => exact .forNode origin h

theorem Shape.Exchanged.mono {shape shape' : Shape}
    (h : shape.Exchanged settings s s' R shape') : shape.Exchanged settings s s' S shape' := by
  have all {vs vs' : List Value} (h : List.Forall₂ R vs vs') : List.Forall₂ S vs vs' :=
    h.imp le
  cases h with
  | bare => exact .bare
  | program strict elements => exact .program strict (all elements)
  | empty => exact .empty
  | boolean value => exact .boolean value
  | absentBlock => exact .absentBlock
  | block statements => exact .block (all statements)
  | conditional condition consequent alternative =>
      exact .conditional (le _ _ condition) (consequent.mono le) (alternative.mono le)
  | caseGroup labels statements =>
      exact .caseGroup (labels.imp fun _ _ label => label.mono le) (all statements)
  | absentSwitch discriminant => exact .absentSwitch (le _ _ discriminant)
  | switch discriminant groups => exact .switch (le _ _ discriminant) (all groups)
  | declarator name origin origin' initial =>
      exact .declarator name origin origin' (initial.mono le)
  | declaration declarators => exact .declaration (all declarators)
  | function name origin origin' params body =>
      exact .function name origin origin' params (body.mono le)

end

namespace Store

/-- The second node is the first one with parts of it exchanged, at any set of places. -/
inductive Exchanged (settings : Settings) (s s' : Store) : Value → Value → Prop
  /-- The whole node was exchanged for one with the same text. -/
  | whole {a b : NodeId} {text : String} {origin origin' : Origin}
      (h : s.render settings a = .ok (.text text origin))
      (h' : s'.render settings b = .ok (.text text origin')) :
      Exchanged settings s s' (.node a) (.node b)
  /-- The node was kept, and parts of its children were exchanged, which `R` pairs. -/
  | kept {a b : NodeId} {R : Value → Value → Prop}
      (parts : ∀ u u', R u u' → Exchanged settings s s' u u')
      (shape : Shape.Exchanged settings s s' R (s.shape a) (s'.shape b))
      (taken : ((s.node a).override? "serialize").map s.typeName =
        ((s'.node b).override? "serialize").map s'.typeName) :
      Exchanged settings s s' (.node a) (.node b)

end Store

namespace Store
variable {settings : Settings} {s s' : Store} {v v' : Value} {vs vs' : List Value}

/-- Two values are rendered to one text, or fail alike. -/
def RenderedAlike (settings : Settings) (s s' : Store) (v v' : Value) : Prop :=
  Agrees SameText (s.renderValue (s.render settings) v) (s'.renderValue (s'.render settings) v')

namespace RenderedAlike

theorem renderText (h : RenderedAlike settings s s' v v') :
    s.renderText (s.render settings) v = s'.renderText (s'.render settings) v' := by
  refine Agrees.bind_eq h fun u u' same => ?_
  cases same
  rfl

theorem renderInner (h : RenderedAlike settings s s' v v') :
    Shape.renderInner settings s (s.render settings) v =
      Shape.renderInner settings s' (s'.render settings) v' := by
  refine Agrees.bind_eq h fun u u' same => ?_
  cases same
  rfl

theorem mapM_renderText (h : List.Forall₂ (RenderedAlike settings s s') vs vs') :
    vs.mapM (s.renderText (s.render settings)) = vs'.mapM (s'.renderText (s'.render settings)) :=
  mapM_eq_of_forall₂ (fun _ _ alike => alike.renderText) h

theorem mapM_renderInner (h : List.Forall₂ (RenderedAlike settings s s') vs vs') :
    vs.mapM (Shape.renderInner settings s (s.render settings)) =
      vs'.mapM (Shape.renderInner settings s' (s'.render settings)) :=
  mapM_eq_of_forall₂ (fun _ _ alike => alike.renderInner) h

theorem renderBody {l l' : ListId}
    (h : List.Forall₂ (RenderedAlike settings s s') (s.items l) (s'.items l')) :
    Shape.renderBody settings s (s.render settings) (.list l) =
      Shape.renderBody settings s' (s'.render settings) (.list l') := by
  simp only [Shape.renderBody, iterate, ok_bind, mapM_renderInner h]
  rfl

/-- A part that may be missing is missing from both. -/
theorem optionally (h : Optionally (RenderedAlike settings s s') v v') :
    (v = .null ↔ v' = .null) ∧
      s.renderText (s.render settings) v = s'.renderText (s'.render settings) v' := by
  cases h with
  | null => exact ⟨Iff.rfl, rfl⟩
  | node h => exact ⟨by simp, h.renderText⟩

theorem renderHead (h : LabelExchanged settings s s' (RenderedAlike settings s s') v v') :
    Shape.renderHead s (s.render settings) v = Shape.renderHead s' (s'.render settings) v' := by
  cases h with
  | text text _ _ => rfl
  | node h =>
      have same := Agrees.bind_eq (f := s.expectWritten) (g := s'.expectWritten) h
        fun u u' same => by
        cases same
        rfl
      simp only [renderValue] at same
      simp only [Shape.renderHead, display, same]
  | forText _ h | forNode _ h => simp only [Shape.renderHead, display, h, ok_bind, expectWritten]

theorem renderHeads {l l' : ListId}
    (h : List.Forall₂ (LabelExchanged settings s s' (RenderedAlike settings s s')) (s.items l)
      (s'.items l')) :
    Shape.renderHeads s (s.render settings) (.list l) =
      Shape.renderHeads s' (s'.render settings) (.list l') := by
  have given : s.isTrue (.list l) = s'.isTrue (.list l') := by
    simp [isTrue, ← List.length_eq_zero_iff, h.length_eq]
  have heads := mapM_eq_of_forall₂ (fun _ _ exchanged => renderHead exchanged) h
  simp only [Shape.renderHeads, given, iterate, ok_bind, heads]

end RenderedAlike

theorem expectPieces_of_sameText (h : List.Forall₂ SameText vs vs') (position : Nat) :
    s.expectPieces position vs = s'.expectPieces position vs' := by
  induction h generalizing position with
  | nil => rfl
  | cons same _ ih =>
      cases same
      simp only [expectPieces, ih]

/-- Shapes whose children are rendered alike are rendered alike. -/
theorem render_of_shapeExchanged {directive : String}
    (isDirective : settings.directive.isText directive) {shape shape' : Shape}
    (h : shape.Exchanged settings s s' (RenderedAlike settings s s') shape') :
    Agrees SameText (shape.render settings s (s.render settings))
      (shape'.render settings s' (s'.render settings)) := by
  have written (x : String) : Agrees SameText (pure (.text x)) (pure (.text x)) :=
    .ok (.intro x _ _)
  cases h with
  | bare | empty | boolean _ | absentBlock => exact written _
  | program strict elements =>
      have opening : Shape.renderOpening settings s (.bool strict) =
          Shape.renderOpening settings s' (.bool strict) := by
        obtain ⟨origin, text⟩ := Value.isText_iff.mp isDirective
        simp only [Shape.renderOpening, isTrue, Settings.opening, text, expectStart]
      simp only [Shape.render, opening, iterate, ok_bind, RenderedAlike.mapM_renderText elements]
      exact .bind_same _ fun _ => .bind_same _ fun _ => written _
  | block statements =>
      simp only [Shape.render, RenderedAlike.renderBody statements]
      exact .bind_same _ fun _ => written _
  | conditional condition consequent alternative =>
      simp only [Shape.render, condition.renderText, (RenderedAlike.optionally consequent).2,
        (RenderedAlike.optionally alternative).2, (RenderedAlike.optionally alternative).1]
      refine .bind_same _ fun _ => .bind_same _ fun _ => ?_
      split
      · exact written _
      · exact .bind_same _ fun _ => written _
  | caseGroup labels statements =>
      simp only [Shape.render, RenderedAlike.renderHeads labels, iterate, ok_bind,
        RenderedAlike.mapM_renderInner statements]
      exact .bind_same _ fun _ => .bind_same _ fun _ => written _
  | absentSwitch discriminant =>
      simp only [Shape.render, discriminant.renderText]
      exact .bind_same _ fun _ => written _
  | switch discriminant groups =>
      simp only [Shape.render, discriminant.renderText, RenderedAlike.renderBody groups]
      exact .bind_same _ fun _ => .bind_same _ fun _ => written _
  | declarator name origin origin' initial =>
      simp only [Shape.render, expectStart, (RenderedAlike.optionally initial).2,
        (RenderedAlike.optionally initial).1]
      split
      · exact .ok (.intro name _ _)
      · exact .bind_same _ fun _ => .bind_same _ fun _ => written _
  | declaration declarators =>
      simp only [Shape.render, iterate, ok_bind]
      refine (Agrees.mapM (fun _ _ alike => alike) declarators).bind fun us us' same => ?_
      rw [expectPieces_of_sameText same]
      exact .bind_same _ fun _ => .bind_same _ fun _ => written _
  | @function name origin origin' l l' _ _ params body =>
      have names : s.expectPieces 0 (s.items l) = s'.expectPieces 0 (s'.items l') :=
        expectPieces_of_sameText params 0
      simp only [Shape.render, expectText, pieces, ok_bind, (RenderedAlike.optionally body).2,
        names]
      exact .bind_same _ fun _ => .bind_same _ fun _ => written _

theorem Exchanged.renderedAlike {directive : String}
    (isDirective : settings.directive.isText directive) (h : Exchanged settings s s' v v') :
    RenderedAlike settings s s' v v' := by
  induction h with
  | whole h h' =>
      simp only [RenderedAlike, renderValue, h, h']
      exact .ok (.intro _ _ _)
  | @kept a b R parts shape taken ih =>
      have related := render_of_shapeExchanged isDirective (shape.mono ih)
      simp only [RenderedAlike, renderValue, render_eq, refusal]
      cases found : (s.node a).override? "serialize" with
      | none =>
          rw [found] at taken
          rw [Option.map_eq_none_iff.mp taken.symm]
          exact related
      | some u =>
          rw [found] at taken
          obtain ⟨u', found', same⟩ := Option.map_eq_some_iff.mp taken.symm
          simp only [found', Option.isSome_some, if_true, same]
          exact .error _

/-- Where the fields have the right types, each child is paired with itself. -/
theorem shapeExchanged_self {R : Value → Value → Prop} {shape : Shape} (typed : shape.isTyped s)
    (h : ∀ u ∈ shape.parts s, u.isNode → R u u) : shape.Exchanged settings s s R shape := by
  have list {v : Value} (typed : s.isListOf Value.isNode v)
      (within : ∀ u ∈ s.contents v, u ∈ shape.parts s) :
      ∃ l, v = .list l ∧ List.Forall₂ R (s.items l) (s.items l) := by
    obtain ⟨l, rfl, nodes⟩ := isListOf_iff.mp typed
    exact ⟨l, rfl, List.forall₂_same.mpr fun u hu => h u (within u hu) (nodes u hu)⟩
  have optional {v : Value} (typed : v = .null ∨ v.isNode) (mem : v ∈ shape.parts s) :
      Optionally R v v := by
    rcases typed with rfl | node
    · exact .null
    · obtain ⟨c, rfl⟩ := Value.isNode_iff.mp node
      exact .node (h _ mem node)
  cases shape with
  | bare => exact .bare
  | empty => exact .empty
  | boolean value =>
      obtain ⟨b, rfl⟩ := Value.isBool_iff.mp typed
      exact .boolean b
  | program strict elements =>
      simp only [Shape.isTyped, Bool.and_eq_true] at typed
      obtain ⟨b, rfl⟩ := Value.isBool_iff.mp typed.1
      obtain ⟨l, rfl, elements⟩ := list typed.2 fun u hu => hu
      exact .program b elements
  | block statements =>
      simp only [Shape.isTyped, Bool.or_eq_true, decide_eq_true_eq] at typed
      rcases typed with rfl | typed
      · exact .absentBlock
      · obtain ⟨l, rfl, statements⟩ := list typed fun u hu => hu
        exact .block statements
  | conditional condition consequent alternative =>
      simp only [Shape.isTyped, Bool.and_eq_true, Bool.or_eq_true, decide_eq_true_eq] at typed
      obtain ⟨c, rfl⟩ := Value.isNode_iff.mp typed.1.1
      exact .conditional (h _ (by simp [Shape.parts]) rfl)
        (optional typed.1.2 (by simp [Shape.parts])) (optional typed.2 (by simp [Shape.parts]))
  | caseGroup labels statements =>
      simp only [Shape.isTyped, Bool.and_eq_true] at typed
      obtain ⟨m, rfl, statements⟩ := list typed.2 fun u hu => List.mem_append_right _ hu
      obtain ⟨l, rfl, given⟩ := isListOf_iff.mp typed.1
      refine .caseGroup (List.forall₂_same.mpr fun u hu => ?_) statements
      rcases Bool.or_eq_true_iff.mp (given u hu) with string | node
      · obtain ⟨text, origin, rfl⟩ := Value.isString_iff.mp string
        exact .text text origin origin
      · obtain ⟨c, rfl⟩ := Value.isNode_iff.mp node
        exact .node (h _ (List.mem_append_left _ hu) node)
  | switch discriminant groups =>
      simp only [Shape.isTyped, Bool.and_eq_true, Bool.or_eq_true, decide_eq_true_eq] at typed
      obtain ⟨c, rfl⟩ := Value.isNode_iff.mp typed.1
      have subject := h _ List.mem_cons_self rfl
      rcases typed.2 with rfl | typed
      · exact .absentSwitch subject
      · obtain ⟨l, rfl, groups⟩ := list typed fun u hu => List.mem_cons_of_mem _ hu
        exact .switch subject groups
  | declarator name initial =>
      simp only [Shape.isTyped, Bool.and_eq_true, Bool.or_eq_true, decide_eq_true_eq] at typed
      obtain ⟨name, origin, rfl⟩ := Value.isString_iff.mp typed.1
      exact .declarator name origin origin (optional typed.2 List.mem_cons_self)
  | declaration declarators =>
      obtain ⟨l, rfl, declarators⟩ := list typed fun u hu => hu
      exact .declaration declarators
  | function name params body =>
      simp only [Shape.isTyped, Bool.and_eq_true, Bool.or_eq_true, decide_eq_true_eq] at typed
      obtain ⟨name, origin, rfl⟩ := Value.isString_iff.mp typed.1.1
      obtain ⟨l, rfl, strings⟩ := isListOf_iff.mp typed.1.2
      refine .function name origin origin (List.forall₂_same.mpr fun u hu => ?_)
        (optional typed.2 List.mem_cons_self)
      obtain ⟨param, origin, rfl⟩ := Value.isString_iff.mp (strings u hu)
      exact .intro param origin origin

/-- A node with fields of the right types and no cycle below it can be left as it is. -/
theorem exchanged_self {id : NodeId}
    (typed : ∀ x, Relation.ReflTransGen s.Edge id x → (s.shape x).isTyped s)
    (acyclic : s.AcyclicFrom id) : Exchanged settings s s (.node id) (.node id) := by
  refine acyclic.induct (motive := fun a =>
    (∀ x, Relation.ReflTransGen s.Edge a x → (s.shape x).isTyped s) →
      Exchanged settings s s (.node a) (.node a)) ?_ typed
  intro a ih typed
  refine .kept (R := fun u u' => u = u' ∧ ∃ c, u = .node c ∧ s.Edge a c) ?_ ?_ rfl
  · rintro u u' ⟨rfl, c, rfl, edge⟩
    exact ih c edge fun x path => typed x (.head edge path)
  · refine shapeExchanged_self (typed a .refl) fun u mem node => ?_
    obtain ⟨c, rfl⟩ := Value.isNode_iff.mp node
    exact ⟨rfl, c, rfl, mem⟩

/-- Exchanging parts for others with the same text does not change the text of the whole, nor
whether there is one. For a sound node without cycles there is one as far as memory goes. -/
theorem render_of_exchanged {directive : String} (isDirective : settings.directive.isText directive)
    {a b : NodeId} (h : Exchanged settings s s' (.node a) (.node b)) :
    (∀ text, (∃ origin, s.render settings a = .ok (.text text origin)) ↔
      ∃ origin, s'.render settings b = .ok (.text text origin)) ∧
    (∀ fault, s.render settings a = .error fault ↔ s'.render settings b = .error fault) ∧
    ∀ width, settings.Regular width directive → s.SoundFrom a → s.AcyclicFrom a →
      settings.memory.holds width → ∃ text origin origin',
        s.render settings a = .ok (.text text origin) ∧
          s'.render settings b = .ok (.text text origin') := by
  have alike : Agrees SameText (s.render settings a) (s'.render settings b) :=
    h.renderedAlike isDirective
  refine ⟨alike.text_iff, alike.error_iff, fun width regular sound acyclic room => ?_⟩
  obtain ⟨text, origin, written⟩ :=
    (render_text_of_acyclicFrom regular sound acyclic).resolve_right fun short => short.1 room
  obtain ⟨origin', written'⟩ := (alike.text_iff text).mp ⟨origin, written⟩
  exact ⟨text, origin, origin', written, written'⟩

/-- Two blocks, each with a switch on one literal. In the first the literal is also the label; in
the second the label is a text, and a declarator stands in the place of the statement. -/
def relabelled : Store :=
  ⟨#[.ofShape (.boolean (.bool true)), .ofShape .empty,
      .ofShape (.caseGroup (.list ⟨0⟩) (.list ⟨1⟩)), .ofShape (.switch (.node ⟨0⟩) (.list ⟨2⟩)),
      .ofShape (.block (.list ⟨3⟩)), .ofShape (.declarator (.text ";") .null),
      .ofShape (.caseGroup (.list ⟨4⟩) (.list ⟨5⟩)), .ofShape (.switch (.node ⟨0⟩) (.list ⟨6⟩)),
      .ofShape (.block (.list ⟨7⟩))],
    #[[.node ⟨0⟩], [.node ⟨1⟩], [.node ⟨2⟩], [.node ⟨3⟩], [.text "true"], [.node ⟨5⟩],
      [.node ⟨6⟩], [.node ⟨7⟩]]⟩

theorem relabelled_acyclic (id : NodeId) : relabelled.AcyclicFrom id :=
  acyclicFrom_of_lt (by decide) id

theorem relabelled_sound (id : NodeId) : relabelled.SoundFrom id :=
  soundFrom_of_lt (by decide) id

theorem relabelled_exchanged :
    Exchanged .default relabelled relabelled (.node ⟨4⟩) (.node ⟨8⟩) := by
  have subject : Exchanged .default relabelled relabelled (.node ⟨0⟩) (.node ⟨0⟩) :=
    exchanged_self (fun x path => isTyped_of_isSound (relabelled_sound _ x path))
      (relabelled_acyclic _)
  have statement : Exchanged .default relabelled relabelled (.node ⟨1⟩) (.node ⟨5⟩) :=
    .whole rfl rfl
  have group : Exchanged .default relabelled relabelled (.node ⟨2⟩) (.node ⟨6⟩) :=
    .kept (fun _ _ h => h)
      (.caseGroup (.cons (.forText .common (a := ⟨0⟩) rfl) .nil) (.cons statement .nil)) rfl
  have inner : Exchanged .default relabelled relabelled (.node ⟨3⟩) (.node ⟨7⟩) :=
    .kept (fun _ _ h => h) (.switch subject (.cons group .nil)) rfl
  exact .kept (fun _ _ h => h) (.block (.cons inner .nil)) rfl

theorem relabelled_render_eq : ∃ text origin origin',
    relabelled.render .default ⟨4⟩ = .ok (.text text origin) ∧
      relabelled.render .default ⟨8⟩ = .ok (.text text origin') :=
  (render_of_exchanged Settings.regular_default.isDirective relabelled_exchanged).2.2 4
    Settings.regular_default (relabelled_sound _) (relabelled_acyclic _) (by decide)

end Store
end ScriptGraph
