import Mathlib.Logic.Function.Basic
import ScriptGraph.Proofs.Adoption
import ScriptGraph.Proofs.Cycle

/-!
The nodes that the rendering of a node calls on. They are the nodes among its parts, and those are
the nodes that its construction looks at for children: what is taken in and what is written out
are the same.
-/

namespace ScriptGraph

theorem bind_congr_ok {α β : Type} {x : Except Fault α} {f g : α → Except Fault β}
    (h : ∀ a, x = .ok a → f a = g a) : x >>= f = x >>= g := by
  cases x with
  | error fault => rfl
  | ok a => exact h a rfl

theorem mapM_congr_of_mem {α β : Type} {f g : α → Except Fault β} {as : List α}
    (h : ∀ a ∈ as, f a = g a) : as.mapM f = as.mapM g := by
  induction as with
  | nil => rfl
  | cons a as ih =>
      rw [List.mapM_cons, List.mapM_cons, h a (by simp), ih fun b hb => h b (by simp [hb])]

namespace Store
variable {s : Store}

/-- A loop comes to no nodes but those in a list. -/
theorem mem_contents_of_iterate {v : Value} {us : List Value} (h : s.iterate v = .ok us)
    {c : NodeId} (hc : .node c ∈ us) : .node c ∈ s.contents v := by
  cases v with
  | list l =>
      cases h
      exact hc
  | text t origin =>
      cases h
      simp [Value.characters] at hc
  | null | bool _ | int _ _ | real _ _ | node _ => cases h

end Store

namespace Shape
variable {settings : Settings} {s : Store} {f g : NodeId → Except Fault Value} {shape : Shape}

/-- Of the renderings of nodes only those of the parts have an influence. -/
theorem render_congr (h : ∀ c, .node c ∈ shape.parts s → f c = g c) :
    shape.render settings s f = shape.render settings s g := by
  have value {v : Value} (hv : ∀ c, v = .node c → v ∈ shape.parts s) :
      s.renderValue f v = s.renderValue g v := by
    cases v with
    | node c => exact h c (hv c rfl)
    | null | bool _ | int _ _ | real _ _ | text _ _ | list _ => rfl
  have text {v : Value} (hv : ∀ c, v = .node c → v ∈ shape.parts s) :
      s.renderText f v = s.renderText g v := by
    rw [Store.renderText, Store.renderText, value hv]
  have inner {v : Value} (hv : ∀ c, v = .node c → v ∈ shape.parts s) :
      renderInner settings s f v = renderInner settings s g v := by
    rw [renderInner, renderInner, value hv]
  have head {v : Value} (hv : ∀ c, v = .node c → v ∈ shape.parts s) :
      renderHead s f v = renderHead s g v := by
    cases v with
    | node c => simp only [renderHead, Store.display, h c (hv c rfl)]
    | null | bool _ | int _ _ | real _ _ | text _ _ | list _ => rfl
  -- What holds for every value a loop comes to, holds for the loop.
  have each {v : Value} {β : Type} {F G : Value → Except Fault β}
      (within : ∀ u ∈ s.contents v, u ∈ shape.parts s)
      (same : ∀ {u : Value}, (∀ c, u = .node c → u ∈ shape.parts s) → F u = G u)
      (us : List Value) (hus : s.iterate v = .ok us) : us.mapM F = us.mapM G := by
    refine mapM_congr_of_mem fun u hu => same fun c e => within u ?_
    subst e
    exact Store.mem_contents_of_iterate hus hu
  have lines {v : Value} (within : ∀ u ∈ s.contents v, u ∈ shape.parts s) :
      renderBody settings s f v = renderBody settings s g v := by
    unfold renderBody
    split
    · rfl
    · refine bind_congr_ok fun us hus => ?_
      rw [each within inner us hus]
  cases shape with
  | bare | empty | boolean _ => rfl
  | program strict elements =>
      refine bind_congr_ok fun _ _ => bind_congr_ok fun us hus => ?_
      rw [each (fun u hu => hu) text us hus]
  | block statements =>
      simp only [render]
      rw [lines fun u hu => hu]
  | conditional condition consequent alternative =>
      simp only [render]
      rw [text (v := condition) (by simp [parts]), text (v := consequent) (by simp [parts]),
        text (v := alternative) (by simp [parts])]
  | caseGroup labels statements =>
      have heads : renderHeads s f labels = renderHeads s g labels := by
        unfold renderHeads
        split
        · exact bind_congr_ok (each (fun u hu => List.mem_append_left _ hu) head)
        · rfl
      simp only [render]
      rw [heads]
      refine bind_congr_ok fun _ _ => bind_congr_ok fun us hus => ?_
      rw [each (fun u hu => List.mem_append_right _ hu) inner us hus]
  | switch discriminant groups =>
      simp only [render]
      rw [text (v := discriminant) (by simp [parts]), lines fun u hu => List.mem_cons_of_mem _ hu]
  | declarator name initial =>
      simp only [render]
      rw [text (v := initial) (by simp [parts])]
  | declaration declarators =>
      refine bind_congr_ok fun us hus => ?_
      rw [each (fun u hu => hu) value us hus]
  | function name params body =>
      simp only [render]
      rw [text (v := body) (by simp [parts])]

/-- The nodes that a construction looks at for children are those that a rendering goes on to. -/
theorem node_mem_parts_iff {c : NodeId} :
    .node c ∈ shape.parts s ↔ some (.node c) ∈ shape.slots.flatMap s.offered := by
  have every (v : Value) : .node c ∈ s.contents v ↔ some (.node c) ∈ s.offered (.every v) := by
    cases v with
    | text t origin =>
        simp [Store.contents, Store.offered, Store.iterate, Except.toOption, Value.characters]
    | list _ | null | bool _ | int _ _ | real _ _ | node _ =>
        simp [Store.contents, Store.offered, Store.iterate, Except.toOption]
  have among (v : Value) : .node c ∈ s.contents v ↔ some (.node c) ∈ s.offered (.nodesAmong v) := by
    cases v with
    | text t origin =>
        simp [Store.contents, Store.offered, Store.iterate, Except.toOption, Value.characters]
    | list _ | null | bool _ | int _ _ | real _ _ | node _ =>
        simp [Store.contents, Store.offered, Store.iterate, Except.toOption]
  have one (v : Value) : .node c = v ↔ some (.node c) ∈ s.offered (.one v) := by
    simp [Store.offered]
  have null : .node c ∉ s.contents .null := by simp [Store.contents]
  cases shape with
  | bare | empty | boolean _ => simp [parts, slots]
  | program _ v | declaration v => simp only [parts, slots, List.flatMap_singleton, every]
  | block statements =>
      by_cases absent : statements = .null
      · simp [parts, slots, absent, null]
      · simp [parts, slots, absent, every]
  | conditional condition consequent alternative =>
      simp only [parts, slots, List.flatMap_cons, List.flatMap_nil, List.mem_append, List.mem_cons,
        List.not_mem_nil, one]
  | caseGroup labels statements => simp [parts, slots, among labels, every statements]
  | switch discriminant groups =>
      by_cases absent : groups = .null
      · simp [parts, slots, absent, null, one]
      · simp [parts, slots, absent, one, every]
  | declarator _ v | function _ _ v => simp [parts, slots, one]

end Shape

namespace Store
variable {settings : Settings} {s : Store} {a b : NodeId} {v : Value}

/-- The rendering of the first node calls on the second: were the second to fail, it would fail,
and for the same reason. -/
def Calls (s : Store) (settings : Settings) (a b : NodeId) : Prop :=
  ∀ fault, (s.shape a).render settings s
    (Function.update (s.render settings) b (.error fault)) = .error fault

theorem render_shape_of_ok (h : s.render settings a = .ok v) :
    (s.shape a).render settings s (s.render settings) = .ok v := by
  rw [render_eq] at h
  split at h
  · cases h
  · exact h

theorem calls_of_edge (h : s.render settings a = .ok v) (edge : s.Edge a b) :
    s.Calls settings a b := by
  intro fault
  have close : AgreesUpTo fault
      ((s.shape a).render settings s (Function.update (s.render settings) b (.error fault)))
      ((s.shape a).render settings s (s.render settings)) := by
    refine Shape.render_agreesUpTo rfl rfl (fun _ => .refl _) (fun c => ?_) _
    by_cases same : c = b
    · subst same
      exact .inl (Function.update_self ..)
    · exact .inr (Function.update_of_ne same ..)
  -- If it did not fail, it would have gone through all its parts.
  refine close.resolve_right fun same => ?_
  rw [render_shape_of_ok h] at same
  obtain ⟨u, hu⟩ := Shape.ok_of_render same edge
  rw [Function.update_self] at hu
  cases hu

/-- What becomes of a node that is not a part makes no difference. -/
theorem render_update_of_not_edge (h : ¬ s.Edge a b) (outcome : Except Fault Value) :
    (s.shape a).render settings s (Function.update (s.render settings) b outcome) =
      (s.shape a).render settings s (s.render settings) := by
  refine Shape.render_congr fun c hc => Function.update_of_ne ?_ ..
  rintro rfl
  exact h hc

theorem calls_iff_edge (h : s.render settings a = .ok v) : s.Calls settings a b ↔ s.Edge a b := by
  refine ⟨fun calls => ?_, calls_of_edge h⟩
  by_contra apart
  have failed := calls .endless
  rw [render_update_of_not_edge apart, render_shape_of_ok h] at failed
  cases failed

end Store
end ScriptGraph
