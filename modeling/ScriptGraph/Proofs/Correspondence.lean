import ScriptGraph.Proofs.Description

/-!
Rendering of two stores side by side. Values of the two stores correspond when they have
the same content and their parts correspond. Rendering reads nothing else, so it comes to
the same in both stores: a text, another value that corresponds, or a fault.
-/

namespace ScriptGraph

/-- Related results, or the same fault. -/
inductive Agrees {α β : Type} (R : α → β → Prop) : Except Fault α → Except Fault β → Prop
  | ok {a : α} {b : β} (h : R a b) : Agrees R (.ok a) (.ok b)
  | error (fault : Fault) : Agrees R (.error fault) (.error fault)

section
variable {α β γ δ : Type} {R : α → β → Prop} {S : γ → δ → Prop}

theorem Agrees.bind {x : Except Fault α} {y : Except Fault β} {f : α → Except Fault γ}
    {g : β → Except Fault δ} (h : Agrees R x y) (k : ∀ a b, R a b → Agrees S (f a) (g b)) :
    Agrees S (x >>= f) (y >>= g) := by
  cases h with
  | ok h => exact k _ _ h
  | error fault => exact .error fault

theorem Agrees.bind_same (x : Except Fault α) {f : α → Except Fault γ} {g : α → Except Fault δ}
    (k : ∀ a, Agrees S (f a) (g a)) : Agrees S (x >>= f) (x >>= g) := by
  cases x with
  | ok a => exact k a
  | error fault => exact .error fault

theorem Agrees.bind_eq {x : Except Fault α} {y : Except Fault β} {f : α → Except Fault γ}
    {g : β → Except Fault γ} (h : Agrees R x y) (k : ∀ a b, R a b → f a = g b) :
    (x >>= f) = (y >>= g) := by
  cases h with
  | ok h => exact k _ _ h
  | error fault => rfl

theorem Agrees.eq_of_eq {R : α → α → Prop} {x y : Except Fault α} (h : Agrees R x y)
    (k : ∀ a b, R a b → b = a) : y = x := by
  cases h with
  | ok h => rw [k _ _ h]
  | error fault => rfl

theorem Agrees.mapM {f : α → Except Fault γ} {g : β → Except Fault δ}
    (h : ∀ a b, R a b → Agrees S (f a) (g b)) {as : List α} {bs : List β}
    (related : List.Forall₂ R as bs) : Agrees (List.Forall₂ S) (as.mapM f) (bs.mapM g) := by
  induction related with
  | nil => exact .ok .nil
  | cons first _ ih =>
      simp only [List.mapM_cons]
      exact (h _ _ first).bind fun _ _ hc => ih.bind fun _ _ hcs => .ok (.cons hc hcs)

theorem mapM_eq_of_forall₂ {f : α → Except Fault γ} {g : β → Except Fault γ}
    (h : ∀ a b, R a b → f a = g b) {as : List α} {bs : List β}
    (related : List.Forall₂ R as bs) : as.mapM f = bs.mapM g := by
  induction related with
  | nil => rfl
  | cons first _ ih => simp only [List.mapM_cons, h _ _ first, ih]

theorem isSome_eq_of_rel {x : Option α} {y : Option β} (h : Option.Rel R x y) :
    x.isSome = y.isSome := by
  cases h <;> rfl

theorem map_eq_of_forall₂ {f : α → γ} {g : β → γ} {as : List α} {bs : List β}
    (related : List.Forall₂ R as bs) (h : ∀ a ∈ as, ∀ b ∈ bs, R a b → f a = g b) :
    as.map f = bs.map g := by
  induction related with
  | nil => rfl
  | cons first _ ih =>
      rw [List.map_cons, List.map_cons, h _ (by simp) _ (by simp) first,
        ih fun a ha b hb => h a (by simp [ha]) b (by simp [hb])]
end

namespace Shape

/-- Shapes of one kind with related fields. -/
inductive Rel (R : Value → Value → Prop) : Shape → Shape → Prop
  | bare : Rel R bare bare
  | program {strict strict' elements elements' : Value} (h : R strict strict')
      (k : R elements elements') : Rel R (program strict elements) (program strict' elements')
  | empty : Rel R empty empty
  | boolean {value value' : Value} (h : R value value') : Rel R (boolean value) (boolean value')
  | block {statements statements' : Value} (h : R statements statements') :
      Rel R (block statements) (block statements')
  | conditional {condition condition' consequent consequent' alternative alternative' : Value}
      (h : R condition condition') (k : R consequent consequent')
      (j : R alternative alternative') : Rel R (conditional condition consequent alternative)
        (conditional condition' consequent' alternative')
  | caseGroup {labels labels' statements statements' : Value} (h : R labels labels')
      (k : R statements statements') :
      Rel R (caseGroup labels statements) (caseGroup labels' statements')
  | switch {discriminant discriminant' groups groups' : Value} (h : R discriminant discriminant')
      (k : R groups groups') : Rel R (switch discriminant groups) (switch discriminant' groups')
  | declarator {name name' initial initial' : Value} (h : R name name') (k : R initial initial') :
      Rel R (declarator name initial) (declarator name' initial')
  | declaration {declarators declarators' : Value} (h : R declarators declarators') :
      Rel R (declaration declarators) (declaration declarators')
  | function {name name' params params' body body' : Value} (h : R name name')
      (k : R params params') (j : R body body') :
      Rel R (function name params body) (function name' params' body')

variable {R : Value → Value → Prop} {shape shape' : Shape}

theorem Rel.kind (h : Rel R shape shape') : shape.kind = shape'.kind := by
  cases h <;> rfl

/-- The names of fields belong to the kind. -/
theorem Rel.fields (h : Rel R shape shape') :
    List.Forall₂ (fun a b => a.1 = b.1 ∧ R a.2 b.2) shape.fields shape'.fields := by
  cases h <;> simp [Shape.fields, *]

theorem rel_of_forall₂ (kind : shape.kind = shape'.kind)
    (h : List.Forall₂ R shape.values shape'.values) : Rel R shape shape' := by
  cases shape <;> cases shape' <;> cases kind
  all_goals simp only [values, Shape.fields, List.map_cons, List.map_nil, List.forall₂_cons,
    List.forall₂_nil_right_iff, and_true] at h
  case bare => exact .bare
  case program => exact .program h.1 h.2
  case empty => exact .empty
  case boolean => exact .boolean h
  case block => exact .block h
  case conditional => exact .conditional h.1 h.2.1 h.2.2
  case caseGroup => exact .caseGroup h.1 h.2
  case switch => exact .switch h.1 h.2
  case declarator => exact .declarator h.1 h.2
  case declaration => exact .declaration h
  case function => exact .function h.1 h.2.1 h.2.2

end Shape

/-- The operations that rendering calls on values. -/
def renderingMembers : List String :=
  ["serialize", "split"]

/-- Values with the same content and related parts. Where a number or a text comes from does not
matter, nor do parents and attributes that rendering does not look at. -/
inductive Alike (s s' : Store) (R : Value → Value → Prop) : Value → Value → Prop
  | null : Alike s s' R .null .null
  | bool (b : Bool) : Alike s s' R (.bool b) (.bool b)
  | int (n : Int) (origin origin' : Origin) : Alike s s' R (.int n origin) (.int n origin')
  | real (x : Binary64) (origin origin' : Origin) : Alike s s' R (.real x origin) (.real x origin')
  | text (t : String) (origin origin' : Origin) : Alike s s' R (.text t origin) (.text t origin')
  | list {l l' : ListId} (items : List.Forall₂ R (s.items l) (s'.items l')) :
      Alike s s' R (.list l) (.list l')
  | node {a b : NodeId} (shape : Shape.Rel R (s.shape a) (s'.shape b))
      (overrides : ∀ member ∈ renderingMembers,
        Option.Rel R ((s.node a).override? member) ((s'.node b).override? member)) :
      Alike s s' R (.node a) (.node b)

/-- A relation that one look at related values confirms, at any depth. What is met again below
itself on one side is so on the other. -/
structure Correspondence (s s' : Store) (R : Value → Value → Prop) : Prop where
  look {v v' : Value} : R v v' → Alike s s' R v v'
  text (t : String) : R (.text t) (.text t)
  again {u u' v v' : Value} : R u u' → R v v' → s.Below u v → s'.Below u' v' → (v = u ↔ v' = u')

namespace Correspondence
variable {s s' : Store} {R : Value → Value → Prop} {v v' : Value}
variable (c : Correspondence s s' R)
include c

theorem typeName (h : R v v') : s.typeName v = s'.typeName v' := by
  cases c.look h with
  | node shape _ => exact congrArg Kind.label shape.kind
  | null | bool _ | int _ _ _ | real _ _ _ | text _ _ _ | list _ => rfl

theorem isTrue (h : R v v') : s.isTrue v = s'.isTrue v' := by
  cases c.look h with
  | list items => simp [Store.isTrue, ← List.length_eq_zero_iff, items.length_eq]
  | null | bool _ | int _ _ _ | real _ _ _ | text _ _ _ | node _ _ => rfl

theorem null_iff (h : R v v') : v = .null ↔ v' = .null := by
  cases c.look h <;> simp

theorem characters (t : String) :
    List.Forall₂ R (Value.characters t) (Value.characters t) := by
  unfold Value.characters
  induction t.toList with
  | nil => exact .nil
  | cons char chars ih => exact .cons (c.text _) ih

theorem iterate (h : R v v') : Agrees (List.Forall₂ R) (s.iterate v) (s'.iterate v') := by
  have name := c.typeName h
  cases c.look h with
  | list items => exact .ok items
  | text t _ _ => exact .ok (c.characters t)
  | null | bool _ | int _ _ _ | real _ _ _ | node _ _ =>
      simp only [Store.iterate, name]
      exact .error _

theorem pieces (h : R v v') : Agrees (List.Forall₂ R) (s.pieces v) (s'.pieces v') := by
  cases c.look h with
  | list items => exact .ok items
  | text t _ _ => exact .ok (c.characters t)
  | null | bool _ | int _ _ _ | real _ _ _ | node _ _ => exact .error _

theorem expectText (h : R v v') : s.expectText v = s'.expectText v' := by
  have name := c.typeName h
  cases c.look h with
  | text t _ _ => rfl
  | null | bool _ | int _ _ _ | real _ _ _ | list _ | node _ _ => simp only [Store.expectText, name]

theorem expectStart (h : R v v') : s.expectStart v = s'.expectStart v' := by
  have name := c.typeName h
  cases c.look h with
  | text t _ _ | list _ => rfl
  | null | bool _ | int _ _ _ | real _ _ _ | node _ _ => simp only [Store.expectStart, name]

theorem expectWritten (h : R v v') : s.expectWritten v = s'.expectWritten v' := by
  have name := c.typeName h
  cases c.look h with
  | text t _ _ => rfl
  | null | bool _ | int _ _ _ | real _ _ _ | list _ | node _ _ =>
      simp only [Store.expectWritten, name]

theorem expectPieces {us us' : List Value} (h : List.Forall₂ R us us') (position : Nat) :
    s.expectPieces position us = s'.expectPieces position us' := by
  induction h generalizing position with
  | nil => rfl
  | cons first _ ih =>
      have name := c.typeName first
      cases c.look first with
      | text t _ _ => simp only [Store.expectPieces, ih]
      | null | bool _ | int _ _ _ | real _ _ _ | list _ | node _ _ =>
          simp only [Store.expectPieces, name]

theorem refusal (h : R v v') (member : String) (hm : member ∈ renderingMembers) :
    s.refusal v member = s'.refusal v' member := by
  have name := c.typeName h
  cases c.look h with
  | @node a b _ overrides =>
      have related := overrides member hm
      simp only [Store.refusal]
      generalize (s.node a).override? member = found, (s'.node b).override? member = found'
        at related
      cases related with
      | some related => simp only [c.typeName related]
      | none => simp only [name]
  | null | bool _ | int _ _ _ | real _ _ _ | text _ _ _ | list _ =>
      simp only [Store.refusal, name]

theorem describeBy (h : R v v') {f g : Value → String}
    (parts : ∀ u ∈ s.described v, ∀ u' ∈ s'.described v', R u u' → f u = g u') :
    s.describeBy f v = s'.describeBy g v' := by
  cases c.look h with
  | @list l l' items =>
      have same : (s.items l).map f = (s'.items l').map g := map_eq_of_forall₂ items parts
      simp only [Store.describeBy, same]
  | @node a b shape _ =>
      have same : ((s.shape a).fields.map fun field => field.1 ++ "=" ++ f field.2) =
          (s'.shape b).fields.map fun field => field.1 ++ "=" ++ g field.2 := by
        refine map_eq_of_forall₂ shape.fields fun field hf field' hf' related => ?_
        rw [related.1, parts field.2 (List.mem_map_of_mem hf) field'.2 (List.mem_map_of_mem hf')
          related.2]
      have kind : (s.node a).kind = (s'.node b).kind := shape.kind
      simp only [Store.describeBy, same, kind]
  | null | bool _ | int _ _ _ | real _ _ _ | text _ _ _ => rfl

/-- Descriptions do not differ, whatever is cut short in them. -/
theorem describeWithin (n : Nat) (h : R v v') {unfinished unfinished' : List Value}
    (cut : ∀ u u', R u u' → (u = v ∨ s.Below v u) → (u' = v' ∨ s'.Below v' u') →
      (u ∈ unfinished ↔ u' ∈ unfinished')) :
    s.describeWithin n unfinished v = s'.describeWithin n unfinished' v' := by
  induction n generalizing v v' unfinished unfinished' with
  | zero => cases c.look h <;> rfl
  | succ n ih =>
      have here := cut v v' h (.inl rfl) (.inl rfl)
      have handle : v.isHandle = v'.isHandle := by cases c.look h <;> rfl
      by_cases met : v.isHandle ∧ v ∈ unfinished
      · rw [Store.describeWithin_of_mem met.1 met.2,
          Store.describeWithin_of_mem (handle ▸ met.1) (here.mp met.2)]
        cases c.look h <;> rfl
      · rw [not_and] at met
        have met' (again : v'.isHandle) : v' ∉ unfinished' :=
          fun mem => met (handle ▸ again) (here.mpr mem)
        rw [Store.describeWithin_succ met, Store.describeWithin_succ met']
        refine c.describeBy h fun u hu u' hu' related => ih related fun w w' hw ew ew' => ?_
        have under : s.Below v w := by
          have held := Store.mem_successors_of_mem_described hu
          rcases ew with rfl | ew
          · exact .single held
          · exact .head held ew
        have under' : s'.Below v' w' := by
          have held := Store.mem_successors_of_mem_described hu'
          rcases ew' with rfl | ew'
          · exact .single held
          · exact .head held ew'
        simp only [List.mem_cons, c.again h hw under under',
          cut w w' hw (.inr under) (.inr under')]

theorem describe (h : R v v') : s.describe v = s'.describe v' := by
  set n := max (s.nodes.size + s.lists.size) (s'.nodes.size + s'.lists.size) + 1 with hn
  rw [Store.describe_eq_describeWithin (n := n) (by omega),
    Store.describe_eq_describeWithin (n := n) (by omega)]
  exact c.describeWithin n h fun _ _ _ _ _ => by simp

end Correspondence

/-- What rendering makes of the settings is the same on both sides. -/
structure Settings.Matches (s s' : Store) (settings settings' : Settings) : Prop where
  sign : checkWidth settings.indentWidth = checkWidth settings'.indentWidth
  count : repeatCount settings.memory settings.indentWidth =
    repeatCount settings'.memory settings'.indentWidth
  start : s.expectStart settings.directive = s'.expectStart settings'.directive

namespace Correspondence
variable {s s' : Store} {R : Value → Value → Prop} {v v' : Value}
variable {settings settings' : Settings} {f g : NodeId → Except Fault Value}
variable (c : Correspondence s s' R) (m : settings.Matches s s' settings')

section
variable (h : ∀ a b, R (.node a) (.node b) → Agrees R (f a) (g b))
include c h

theorem renderValue (related : R v v') :
    Agrees R (s.renderValue f v) (s'.renderValue g v') := by
  have name := c.typeName related
  cases c.look related with
  | node _ _ => exact h _ _ related
  | null | bool _ | int _ _ _ | real _ _ _ | text _ _ _ | list _ =>
      simp only [Store.renderValue, name]
      exact .error _

theorem renderText (related : R v v') : s.renderText f v = s'.renderText g v' :=
  (c.renderValue h related).bind_eq fun _ _ => c.expectText

theorem display (related : R v v') : s.display f v = s'.display g v' := by
  have same := c.describe related
  cases c.look related with
  | text t _ _ => rfl
  | node _ _ => exact (h _ _ related).bind_eq fun _ _ => c.expectWritten
  | null | bool _ | int _ _ _ | real _ _ _ | list _ => simp only [Store.display, same]

include m

theorem renderInner (related : R v v') :
    Shape.renderInner settings s f v = Shape.renderInner settings' s' g v' := by
  refine (c.renderValue h related).bind_eq fun u u' hu => ?_
  simp only [indentValue, m.sign, m.count]
  have refused := c.refusal hu "split" (by simp [renderingMembers])
  cases c.look hu with
  | text t _ _ => rfl
  | null | bool _ | int _ _ _ | real _ _ _ | list _ | node _ _ => simp only [refused]

theorem renderBody (related : R v v') :
    Shape.renderBody settings s f v = Shape.renderBody settings' s' g v' := by
  simp only [Shape.renderBody, c.null_iff related]
  split
  · rfl
  · refine (c.iterate related).bind_eq fun us us' items => ?_
    rw [mapM_eq_of_forall₂ (fun u u' hu => c.renderInner m h hu) items]

theorem renderShape {shape shape' : Shape} (related : Shape.Rel R shape shape') :
    Agrees R (shape.render settings s f) (shape'.render settings' s' g) := by
  have written (t : String) : Agrees R (pure (.text t)) (pure (.text t)) := .ok (c.text t)
  have texts {us us' : List Value} (items : List.Forall₂ R us us') :
      us.mapM (s.renderText f) = us'.mapM (s'.renderText g) :=
    mapM_eq_of_forall₂ (fun u u' hu => c.renderText h hu) items
  have inner {us us' : List Value} (items : List.Forall₂ R us us') :
      us.mapM (Shape.renderInner settings s f) = us'.mapM (Shape.renderInner settings' s' g) :=
    mapM_eq_of_forall₂ (fun u u' hu => c.renderInner m h hu) items
  cases related with
  | bare | empty => exact written _
  | boolean value =>
      simp only [Shape.render, c.isTrue value]
      exact written _
  | @program strict strict' _ _ isStrict elements =>
      have opening :
          Shape.renderOpening settings s strict = Shape.renderOpening settings' s' strict' := by
        simp only [Shape.renderOpening, Settings.opening, c.isTrue isStrict, m.start]
      simp only [Shape.render, opening]
      refine .bind_same _ fun _ => (c.iterate elements).bind fun us us' items => ?_
      rw [texts items]
      exact .bind_same _ fun _ => written _
  | block statements =>
      simp only [Shape.render, c.renderBody m h statements]
      exact .bind_same _ fun _ => written _
  | conditional condition consequent alternative =>
      simp only [Shape.render, c.renderText h condition, c.renderText h consequent,
        c.renderText h alternative, c.null_iff alternative]
      refine .bind_same _ fun _ => .bind_same _ fun _ => ?_
      split
      · exact written _
      · exact .bind_same _ fun _ => written _
  | @caseGroup given given' _ _ labels statements =>
      have heads : Shape.renderHeads s f given = Shape.renderHeads s' g given' := by
        simp only [Shape.renderHeads, c.isTrue labels]
        split
        · refine (c.iterate labels).bind_eq fun us us' items => ?_
          refine mapM_eq_of_forall₂ (fun u u' hu => ?_) items
          simp only [Shape.renderHead, c.display h hu]
        · rfl
      simp only [Shape.render, heads]
      refine .bind_same _ fun _ => (c.iterate statements).bind fun us us' items => ?_
      rw [inner items]
      exact .bind_same _ fun _ => written _
  | switch discriminant groups =>
      simp only [Shape.render, c.renderText h discriminant, c.renderBody m h groups]
      exact .bind_same _ fun _ => .bind_same _ fun _ => written _
  | declarator name initial =>
      simp only [Shape.render, c.expectStart name, c.renderText h initial, c.null_iff initial]
      split
      · exact .ok name
      · exact .bind_same _ fun _ => .bind_same _ fun _ => written _
  | declaration declarators =>
      have between : settings.separator = settings'.separator := by
        simp only [Settings.separator, m.count]
      simp only [Shape.render, between]
      refine (c.iterate declarators).bind fun us us' items => ?_
      refine (Agrees.mapM (fun u u' hu => c.renderValue h hu) items).bind fun _ _ hp => ?_
      rw [c.expectPieces hp]
      exact .bind_same _ fun _ => .bind_same _ fun _ => written _
  | function name params body =>
      simp only [Shape.render, c.expectText name, c.renderText h body]
      refine .bind_same _ fun _ => (c.pieces params).bind fun us us' items => ?_
      rw [c.expectPieces items]
      exact .bind_same _ fun _ => .bind_same _ fun _ => written _

end

include c m

theorem renderWithin (n : Nat) {a b : NodeId} (related : R (.node a) (.node b)) :
    Agrees R (s.renderWithin settings n a) (s'.renderWithin settings' n b) := by
  induction n generalizing a b with
  | zero => exact .error _
  | succ n ih =>
      have refused := c.refusal related "serialize" (by simp [renderingMembers])
      cases c.look related with
      | node shape overrides =>
          have taken : ((s.node a).override? "serialize").isSome =
              ((s'.node b).override? "serialize").isSome :=
            isSome_eq_of_rel (overrides "serialize" (by simp [renderingMembers]))
          simp only [Store.renderWithin, taken, refused]
          split
          · exact .error _
          · exact c.renderShape m (fun _ _ => ih) shape

/-- Nodes that correspond are rendered alike. The bounds of the two stores may differ, and a
bound that serves both is at hand. -/
theorem render {a b : NodeId} (related : R (.node a) (.node b)) :
    Agrees R (s.render settings a) (s'.render settings' b) := by
  set n := max s.nodes.size s'.nodes.size + 1 with hn
  rw [← Store.renderWithin_of_size_lt (n := n) (by omega),
    ← Store.renderWithin_of_size_lt (n := n) (by omega)]
  exact c.renderWithin m n related

end Correspondence
end ScriptGraph
