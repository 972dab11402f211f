import ScriptGraph.Proofs.Sound
import ScriptGraph.Reach

/-!
The invariant of stores that are built from values of the right types: whatever can be
reached is in the store, typed and complete, no list is held by two nodes, and there is
no cycle. It is stated for what can be reached only; nothing is asked of nodes that are
lost.
-/

namespace ScriptGraph

namespace Shape

/-- The values in the fields. -/
def values (shape : Shape) : List Value :=
  shape.fields.map Prod.snd

end Shape

namespace Store
variable {s s' : Store} {roots roots' : List Value}

attribute [local simp] Shape.values Shape.fields

/-- A node or list is one of the store. -/
def Has (s : Store) : Value → Prop
  | .node id => id.index < s.nodes.size
  | .list l => l.index < s.lists.size
  | .null | .bool _ | .int .. | .real .. | .text .. => True

structure Healthy (s : Store) (roots : List Value) : Prop where
  plain (id : NodeId) : (s.node id).extras = []
  has {v : Value} : s.Reachable roots v → v.isHandle → s.Has v
  typed {id : NodeId} : s.Reachable roots (.node id) → (s.shape id).isTyped s
  complete {id : NodeId} : s.Reachable roots (.node id) → (s.shape id).isComplete
  unshared {a b : NodeId} {l : ListId} : s.Reachable roots (.node a) →
    s.Reachable roots (.node b) → .list l ∈ (s.shape a).values → .list l ∈ (s.shape b).values →
      a = b
  acyclic {id : NodeId} : s.Reachable roots (.node id) → ¬ Relation.TransGen s.Edge id id

theorem isHandle_of_mem_successors {u v : Value} (h : v ∈ s.successors u) : u.isHandle := by
  cases u with
  | list _ | node _ => rfl
  | null | bool _ | int _ _ | real _ _ | text _ _ => simp [successors] at h

/-- What is reached from values that are reached, is. -/
theorem reachable_of_reachable {v : Value} (h : s.Reachable roots' v)
    (hr : ∀ r ∈ roots', r.isHandle → s.Reachable roots r) (hv : v.isHandle) :
    s.Reachable roots v := by
  induction h with
  | root h => exact hr _ h hv
  | step _ hv' ih => exact .step (ih (isHandle_of_mem_successors hv')) hv'

/-- Values that lead to nothing else contain everything that can be reached from them. -/
theorem mem_of_reachable {found : List Value} (hr : ∀ r ∈ roots, r ∈ found)
    (closed : ∀ u ∈ found, ∀ v ∈ s.successors u, v ∈ found) {v : Value}
    (h : s.Reachable roots v) : v ∈ found := by
  induction h with
  | root h => exact hr _ h
  | step _ hv ih => exact closed _ ih _ hv

theorem mem_values_of_mem_parts {shape : Shape} {v : Value} (h : v ∈ shape.parts s) :
    v ∈ shape.values ∨ ∃ l, .list l ∈ shape.values ∧ v ∈ s.items l := by
  have contents {u : Value} (hu : u ∈ shape.values) (hv : v ∈ s.contents u) :
      v ∈ shape.values ∨ ∃ l, .list l ∈ shape.values ∧ v ∈ s.items l := by
    cases u with
    | list l => exact .inr ⟨l, hu, hv⟩
    | null | bool _ | int _ _ | real _ _ | text _ _ | node _ => simp [Store.contents] at hv
  cases shape with
  | bare | empty | boolean _ => simp [Shape.parts] at h
  | program strict elements => exact contents (by simp) h
  | block statements => exact contents (by simp) h
  | conditional condition consequent alternative => exact .inl h
  | caseGroup labels statements =>
      rcases List.mem_append.mp h with h | h
      · exact contents (by simp) h
      · exact contents (by simp) h
  | switch discriminant groups =>
      rcases List.mem_cons.mp h with rfl | h
      · exact .inl (by simp)
      · exact contents (by simp) h
  | declarator name initial =>
      obtain rfl := List.mem_singleton.mp h
      exact .inl (by simp)
  | declaration declarators => exact contents (by simp) h
  | function name params body =>
      obtain rfl := List.mem_singleton.mp h
      exact .inl (by simp)

theorem mem_successors_of_mem_values {id : NodeId} {v : Value} (h : v ∈ (s.shape id).values) :
    v ∈ s.successors (.node id) := by
  simp only [successors, Node.held, List.map_append, List.mem_append]
  exact .inl h

theorem Reachable.value {id : NodeId} {v : Value} (h : s.Reachable roots (.node id))
    (hv : v ∈ (s.shape id).values) : s.Reachable roots v :=
  .step h (mem_successors_of_mem_values hv)

theorem Reachable.edge {a b : NodeId} (h : s.Reachable roots (.node a)) (edge : s.Edge a b) :
    s.Reachable roots (.node b) := by
  rcases mem_values_of_mem_parts edge with hv | ⟨l, hl, hv⟩
  · exact h.value hv
  · exact .step (h.value hl) hv

theorem Reachable.path {a b : NodeId} (h : s.Reachable roots (.node a))
    (path : Relation.ReflTransGen s.Edge a b) : s.Reachable roots (.node b) := by
  induction path with
  | refl => exact h
  | tail _ edge ih => exact ih.edge edge

theorem isListOf_congr {test : Value → Bool} {v : Value}
    (h : ∀ l, v = .list l → s'.items l = s.items l) : s'.isListOf test v = s.isListOf test v := by
  cases v with
  | list l => simp only [isListOf, h l rfl]
  | null | bool _ | int _ _ | real _ _ | text _ _ | node _ => rfl

theorem contents_congr {v : Value} (h : ∀ l, v = .list l → s'.items l = s.items l) :
    s'.contents v = s.contents v := by
  cases v with
  | list l => exact h l rfl
  | null | bool _ | int _ _ | real _ _ | text _ _ | node _ => rfl

/-- Of the store, types and parts of a shape depend on the lists in its fields. -/
theorem isTyped_congr {shape : Shape}
    (h : ∀ l, .list l ∈ shape.values → s'.items l = s.items l) :
    shape.isTyped s' = shape.isTyped s := by
  have same {v : Value} (hv : v ∈ shape.values) (test : Value → Bool) :
      s'.isListOf test v = s.isListOf test v :=
    isListOf_congr fun l e => h l (e ▸ hv)
  cases shape with
  | bare | empty | boolean _ | conditional _ _ _ | declarator _ _ => rfl
  | program strict elements =>
      simp only [Shape.isTyped, same (show elements ∈ _ by simp)]
  | block statements =>
      simp only [Shape.isTyped, same (show statements ∈ _ by simp)]
  | caseGroup labels statements =>
      simp only [Shape.isTyped, same (show labels ∈ _ by simp),
        same (show statements ∈ _ by simp)]
  | switch discriminant groups =>
      simp only [Shape.isTyped, same (show groups ∈ _ by simp)]
  | declaration declarators =>
      simp only [Shape.isTyped, same (show declarators ∈ _ by simp)]
  | function name params body =>
      simp only [Shape.isTyped, same (show params ∈ _ by simp)]

theorem parts_congr {shape : Shape}
    (h : ∀ l, .list l ∈ shape.values → s'.items l = s.items l) :
    shape.parts s' = shape.parts s := by
  have same {v : Value} (hv : v ∈ shape.values) : s'.contents v = s.contents v :=
    contents_congr fun l e => h l (e ▸ hv)
  cases shape with
  | bare | empty | boolean _ | conditional _ _ _ | declarator _ _ | function _ _ _ => rfl
  | program _ _ | block _ | declaration _ => exact same (by simp)
  | caseGroup labels statements =>
      simp only [Shape.parts, same (show labels ∈ _ by simp),
        same (show statements ∈ _ by simp)]
  | switch discriminant groups =>
      simp only [Shape.parts, same (show groups ∈ _ by simp)]

theorem Healthy.weaken (h : s.Healthy roots)
    (hr : ∀ r ∈ roots', r.isHandle → s.Reachable roots r) : s.Healthy roots' where
  plain := h.plain
  has hv handle := h.has (reachable_of_reachable hv hr handle) handle
  typed hv := h.typed (reachable_of_reachable hv hr rfl)
  complete hv := h.complete (reachable_of_reachable hv hr rfl)
  unshared ha hb :=
    h.unshared (reachable_of_reachable ha hr rfl) (reachable_of_reachable hb hr rfl)
  acyclic hv := h.acyclic (reachable_of_reachable hv hr rfl)

theorem Healthy.tail {v : Value} (h : s.Healthy (v :: roots)) : s.Healthy roots :=
  h.weaken fun _ hr _ => .root (List.mem_cons_of_mem v hr)

/-- All nodes and lists of the one store stand unchanged in the other one, parents apart. -/
structure Carries (s s' : Store) : Prop where
  node {id : NodeId} : id.index < s.nodes.size →
    id.index < s'.nodes.size ∧ s'.shape id = s.shape id
  list {l : ListId} : l.index < s.lists.size → l.index < s'.lists.size ∧ s'.items l = s.items l
  plain : (∀ id, (s.node id).extras = []) → ∀ id, (s'.node id).extras = []

namespace Carries

theorem refl (s : Store) : Carries s s :=
  ⟨fun h => ⟨h, rfl⟩, fun h => ⟨h, rfl⟩, id⟩

theorem trans {s'' : Store} (h : Carries s s') (k : Carries s' s'') : Carries s s'' where
  node hid := ⟨(k.node (h.node hid).1).1, (k.node (h.node hid).1).2.trans (h.node hid).2⟩
  list hl := ⟨(k.list (h.list hl).1).1, (k.list (h.list hl).1).2.trans (h.list hl).2⟩
  plain hp := k.plain (h.plain hp)

theorem has (h : Carries s s') {v : Value} (hv : s.Has v) : s'.Has v := by
  cases v with
  | node id => exact (h.node hv).1
  | list l => exact (h.list hv).1
  | null | bool _ | int _ _ | real _ _ | text _ _ => trivial

variable (h : Carries s s') (hs : s.Healthy roots)
include h hs

theorem successors {v : Value} (hv : s.Reachable roots v) : s'.successors v = s.successors v := by
  cases v with
  | node id =>
      have same := (h.node (hs.has hv rfl)).2
      simp only [shape] at same
      simp only [Store.successors, Node.held, same, hs.plain, h.plain hs.plain]
  | list l => exact (h.list (hs.has hv rfl)).2
  | null | bool _ | int _ _ | real _ _ | text _ _ => rfl

theorem reachable_iff {v : Value} : s'.Reachable roots v ↔ s.Reachable roots v := by
  constructor
  · intro hv
    induction hv with
    | root hv => exact .root hv
    | step _ hv ih => exact .step ih (h.successors hs ih ▸ hv)
  · intro hv
    induction hv with
    | root hv => exact .root hv
    | step hu hv ih => exact .step ih ((h.successors hs hu).symm ▸ hv)

theorem items {id : NodeId} (hid : s.Reachable roots (.node id)) :
    ∀ l, .list l ∈ (s.shape id).values → s'.items l = s.items l :=
  fun _ hl => (h.list (hs.has (hid.value hl) rfl)).2

theorem edge_iff {a b : NodeId} (ha : s.Reachable roots (.node a)) :
    s'.Edge a b ↔ s.Edge a b := by
  rw [Edge, Edge, (h.node (hs.has ha rfl)).2, parts_congr (h.items hs ha)]

theorem path {a b : NodeId} (ha : s.Reachable roots (.node a))
    (path : Relation.ReflTransGen s'.Edge a b) : Relation.ReflTransGen s.Edge a b := by
  induction path with
  | refl => exact .refl
  | tail _ edge ih => exact .tail ih ((h.edge_iff hs (ha.path ih)).mp edge)

theorem healthy : s'.Healthy roots where
  plain := h.plain hs.plain
  has hv handle := h.has (hs.has ((h.reachable_iff hs).mp hv) handle)
  typed hid := by
    have hid := (h.reachable_iff hs).mp hid
    rw [(h.node (hs.has hid rfl)).2, isTyped_congr (h.items hs hid)]
    exact hs.typed hid
  complete hid := by
    have hid := (h.reachable_iff hs).mp hid
    rw [(h.node (hs.has hid rfl)).2]
    exact hs.complete hid
  unshared ha hb := by
    have ha := (h.reachable_iff hs).mp ha
    have hb := (h.reachable_iff hs).mp hb
    rw [(h.node (hs.has ha rfl)).2, (h.node (hs.has hb rfl)).2]
    exact hs.unshared ha hb
  acyclic hid cycle := by
    have hid := (h.reachable_iff hs).mp hid
    obtain ⟨next, edge, back⟩ := Relation.TransGen.head'_iff.mp cycle
    have edge := (h.edge_iff hs hid).mp edge
    exact hs.acyclic hid (.head' edge (h.path hs (hid.edge edge) back))

end Carries

/-- A root that leads to what can be reached anyway adds nothing but itself. -/
theorem eq_or_reachable_of_cons {u v : Value}
    (next : ∀ w ∈ s.successors u, w.isHandle → s.Reachable roots w)
    (h : s.Reachable (u :: roots) v) (handle : v.isHandle) : v = u ∨ s.Reachable roots v := by
  induction h with
  | root hv =>
      rcases List.mem_cons.mp hv with rfl | hv
      · exact .inl rfl
      · exact .inr (.root hv)
  | step _ hv ih =>
      rcases ih (isHandle_of_mem_successors hv) with rfl | hu
      · exact .inr (next _ hv handle)
      · exact .inr (.step hu hv)

/-- A list of what can be reached can be a root as well. -/
theorem Healthy.cons_list (h : s.Healthy roots) {l : ListId} (hl : l.index < s.lists.size)
    (items : ∀ v ∈ s.items l, v.isHandle → s.Reachable roots v) :
    s.Healthy (.list l :: roots) := by
  have split {v : Value} (hv : s.Reachable (.list l :: roots) v) (handle : v.isHandle) :
      v = .list l ∨ s.Reachable roots v :=
    eq_or_reachable_of_cons (fun u hu => items u hu) hv handle
  have node {id : NodeId} (hid : s.Reachable (.list l :: roots) (.node id)) :
      s.Reachable roots (.node id) :=
    (split hid rfl).resolve_left (by simp)
  refine ⟨h.plain, fun hv handle => ?_, fun hid => h.typed (node hid),
    fun hid => h.complete (node hid), fun ha hb => h.unshared (node ha) (node hb),
    fun hid => h.acyclic (node hid)⟩
  rcases split hv handle with rfl | hv
  · exact hl
  · exact h.has hv handle

/-- A node whose fields hold what can be reached can be a root as well, if it is typed and
complete and shares no list. -/
theorem Healthy.cons_node (h : s.Healthy roots) {id : NodeId} (hid : id.index < s.nodes.size)
    (values : ∀ v ∈ (s.shape id).values, v.isHandle → s.Reachable roots v)
    (typed : (s.shape id).isTyped s) (complete : (s.shape id).isComplete)
    (unshared : ∀ a l, s.Reachable roots (.node a) → .list l ∈ (s.shape id).values →
      .list l ∈ (s.shape a).values → a = id) : s.Healthy (.node id :: roots) := by
  by_cases known : s.Reachable roots (.node id)
  · refine h.weaken fun r hr _ => ?_
    rcases List.mem_cons.mp hr with rfl | hr
    · exact known
    · exact .root hr
  have split {v : Value} (hv : s.Reachable (.node id :: roots) v) (handle : v.isHandle) :
      v = .node id ∨ s.Reachable roots v := by
    refine eq_or_reachable_of_cons (fun u hu => values u ?_) hv handle
    simp only [successors, Node.held, h.plain, List.append_nil] at hu
    exact hu
  have next {b : NodeId} (edge : s.Edge id b) : s.Reachable roots (.node b) := by
    rcases mem_values_of_mem_parts edge with hv | ⟨l, hl, hv⟩
    · exact values _ hv rfl
    · exact .step (values _ hl rfl) hv
  refine ⟨h.plain, fun hv handle => ?_, fun hv => ?_, fun hv => ?_, fun ha hb hl hl' => ?_,
    fun hv cycle => ?_⟩
  · rcases split hv handle with rfl | hv
    · exact hid
    · exact h.has hv handle
  · rcases split hv rfl with e | hv
    · cases e
      exact typed
    · exact h.typed hv
  · rcases split hv rfl with e | hv
    · cases e
      exact complete
    · exact h.complete hv
  · rcases split ha rfl with ea | ha
    · cases ea
      rcases split hb rfl with eb | hb
      · cases eb
        rfl
      · exact (unshared _ _ hb hl hl').symm
    · rcases split hb rfl with eb | hb
      · cases eb
        exact unshared _ _ ha hl' hl
      · exact h.unshared ha hb hl hl'
  · rcases split hv rfl with e | hv
    · cases e
      obtain ⟨b, edge, back⟩ := Relation.TransGen.head'_iff.mp cycle
      exact known ((next edge).path back)
    · exact h.acyclic hv cycle

theorem shape_setItems (l : ListId) (items : List Value) (id : NodeId) :
    (s.setItems l items).shape id = s.shape id := rfl

theorem items_setItems {l : ListId} (hl : l.index < s.lists.size) (items : List Value) :
    (s.setItems l items).items l = items := by
  simp [Store.items, setItems, Array.getD_eq_getD_getElem?, hl]

theorem items_setItems_of_ne {l k : ListId} (h : k ≠ l) (items : List Value) :
    (s.setItems l items).items k = s.items k := by
  have other : l.index ≠ k.index := fun e => h (by cases l; cases k; simp_all)
  simp [Store.items, setItems, Array.getD_eq_getD_getElem?, Array.getElem?_setIfInBounds_ne other]

theorem has_setItems (l : ListId) (items : List Value) {v : Value} :
    (s.setItems l items).Has v ↔ s.Has v := by
  cases v <;> simp [Has, setItems]

/-- The elements of a program are replaced. What is new among them are nodes from which the
program cannot be reached. -/
structure Replaces (s : Store) (roots : List Value) (m : NodeId) (l : ListId)
    (items : List Value) : Prop where
  reachable : s.Reachable roots (.node m)
  program : ∃ strict, s.shape m = .program strict (.list l)
  item {v : Value} : v ∈ items → ∃ n, v = .node n ∧ s.Reachable roots v ∧
    (v ∈ s.items l ∨ ¬ Relation.ReflTransGen s.Edge n m)

namespace Replaces
variable {m : NodeId} {l : ListId} {items : List Value}

theorem holds (h : s.Replaces roots m l items) : .list l ∈ (s.shape m).values := by
  obtain ⟨strict, hm⟩ := h.program
  simp [hm, Shape.values, Shape.fields]

variable (h : s.Replaces roots m l items) (hs : s.Healthy roots)
include h hs

theorem inStore : l.index < s.lists.size :=
  hs.has (h.reachable.value h.holds) rfl

/-- No other node holds the list. -/
theorem items_of_ne {a : NodeId} (ha : s.Reachable roots (.node a)) (other : a ≠ m) :
    ∀ k, .list k ∈ (s.shape a).values → (s.setItems l items).items k = s.items k := by
  intro k hk
  apply items_setItems_of_ne
  rintro rfl
  exact other (hs.unshared ha h.reachable hk h.holds)

theorem reachable_of_setItems {roots' : List Value}
    (hr : ∀ r ∈ roots', r.isHandle → s.Reachable roots r) {v : Value}
    (hv : (s.setItems l items).Reachable roots' v) (handle : v.isHandle) :
    s.Reachable roots v := by
  induction hv with
  | root hv => exact hr _ hv handle
  | @step u v hu hv ih =>
      have hu := ih (isHandle_of_mem_successors hv)
      cases u with
      | list k =>
          by_cases hk : k = l
          · subst hk
            rw [successors, items_setItems (h.inStore hs)] at hv
            obtain ⟨n, -, hn, -⟩ := h.item hv
            exact hn
          · rw [successors, items_setItems_of_ne hk] at hv
            exact .step hu hv
      | node id => exact .step hu hv
      | null | bool _ | int _ _ | real _ _ | text _ _ => simp [successors] at hv

theorem edge {a b : NodeId} (ha : s.Reachable roots (.node a))
    (edge : (s.setItems l items).Edge a b) :
    s.Edge a b ∨ a = m ∧ s.Reachable roots (.node b) ∧ ¬ Relation.ReflTransGen s.Edge b m := by
  by_cases other : a = m
  · subst other
    obtain ⟨strict, hm⟩ := h.program
    rw [Edge, shape_setItems, hm, Shape.parts, contents, items_setItems (h.inStore hs)] at edge
    obtain ⟨n, hn, reached, known | apart⟩ := h.item edge
    · left
      rw [Edge, hm]
      exact known
    · cases hn
      exact .inr ⟨rfl, reached, apart⟩
  · left
    rw [Edge, shape_setItems, parts_congr (h.items_of_ne hs ha other)] at edge
    exact edge

theorem reachable_edge {a b : NodeId} (ha : s.Reachable roots (.node a))
    (edge : (s.setItems l items).Edge a b) : s.Reachable roots (.node b) := by
  rcases h.edge hs ha edge with edge | ⟨-, hb, -⟩
  · exact ha.edge edge
  · exact hb

theorem reachable_path {a b : NodeId} (ha : s.Reachable roots (.node a))
    (path : Relation.ReflTransGen (s.setItems l items).Edge a b) :
    s.Reachable roots (.node b) := by
  induction path with
  | refl => exact ha
  | tail _ edge ih => exact h.reachable_edge hs ih edge

/-- What was reached still is, as long as no element is taken away. -/
theorem reachable_setItems (kept : ∀ v ∈ s.items l, v ∈ items) {v : Value}
    (hv : s.Reachable roots v) : (s.setItems l items).Reachable roots v := by
  induction hv with
  | root hv => exact .root hv
  | @step u v _ hv ih =>
      refine .step ih ?_
      cases u with
      | list k =>
          by_cases hk : k = l
          · subst hk
            rw [successors, items_setItems (h.inStore hs)]
            exact kept v hv
          · rw [successors, items_setItems_of_ne hk]
            exact hv
      | node id => exact hv
      | null | bool _ | int _ _ | real _ _ | text _ _ => simp [successors] at hv

/-- New edges start at the program, so no new way leads to it. -/
theorem path_to_program {a : NodeId} (ha : s.Reachable roots (.node a))
    (path : Relation.ReflTransGen (s.setItems l items).Edge a m) :
    Relation.ReflTransGen s.Edge a m := by
  induction path using Relation.ReflTransGen.head_induction_on with
  | refl => exact .refl
  | head edge _ ih =>
      rcases h.edge hs ha edge with old | ⟨rfl, -, -⟩
      · exact .head old (ih (ha.edge old))
      · exact .refl

/-- A new edge that is part of a cycle would lead to a node from which there is a way back. -/
theorem old_path {a b : NodeId} (ha : s.Reachable roots (.node a))
    (path : Relation.TransGen (s.setItems l items).Edge a b)
    (back : Relation.ReflTransGen (s.setItems l items).Edge b a) :
    Relation.TransGen s.Edge a b := by
  induction path with
  | single edge =>
      rcases h.edge hs ha edge with old | ⟨rfl, hb, apart⟩
      · exact .single old
      · exact absurd (h.path_to_program hs hb back) apart
  | @tail b c path edge ih =>
      have hb := h.reachable_path hs ha path.to_reflTransGen
      rcases h.edge hs hb edge with old | ⟨rfl, hc, apart⟩
      · exact .tail (ih (.head edge back)) old
      · exact absurd (h.path_to_program hs hc (back.trans path.to_reflTransGen)) apart

theorem typed {id : NodeId} (hid : s.Reachable roots (.node id)) :
    (s.shape id).isTyped (s.setItems l items) := by
  by_cases other : id = m
  · subst other
    obtain ⟨strict, hm⟩ := h.program
    have typed := hs.typed hid
    simp only [hm, Shape.isTyped, Bool.and_eq_true] at typed ⊢
    refine ⟨typed.1, isListOf_iff.mpr ⟨l, rfl, fun u hu => ?_⟩⟩
    rw [items_setItems (h.inStore hs)] at hu
    obtain ⟨n, rfl, -⟩ := h.item hu
    rfl
  · rw [isTyped_congr (h.items_of_ne hs hid other)]
    exact hs.typed hid

theorem healthy {roots' : List Value} (hr : ∀ r ∈ roots', r.isHandle → s.Reachable roots r) :
    (s.setItems l items).Healthy roots' where
  plain := hs.plain
  has hv handle := (has_setItems _ _).mpr (hs.has (h.reachable_of_setItems hs hr hv handle) handle)
  typed hid := h.typed hs (h.reachable_of_setItems hs hr hid rfl)
  complete hid := hs.complete (h.reachable_of_setItems hs hr hid rfl)
  unshared ha hb := hs.unshared (h.reachable_of_setItems hs hr ha rfl)
    (h.reachable_of_setItems hs hr hb rfl)
  acyclic hid cycle := by
    have hid := h.reachable_of_setItems hs hr hid rfl
    exact hs.acyclic hid (h.old_path hs hid cycle .refl)

end Replaces

namespace Healthy

/-- The elements of a program are a list of nodes. -/
theorem elements (h : s.Healthy roots) {m : NodeId} (hm : s.Reachable roots (.node m))
    {strict elements : Value} (program : s.shape m = .program strict elements) :
    ∃ l, elements = .list l ∧ ∀ v ∈ s.items l, ∃ n, v = .node n ∧ s.Reachable roots v := by
  have typed := h.typed hm
  simp only [program, Shape.isTyped, Bool.and_eq_true] at typed
  obtain ⟨l, rfl, nodes⟩ := isListOf_iff.mp typed.2
  refine ⟨l, rfl, fun v hv => ?_⟩
  obtain ⟨n, rfl⟩ := Value.isNode_iff.mp (nodes v hv)
  have held : s.Reachable roots (.list l) :=
    hm.value (by simp [program, Shape.values, Shape.fields])
  exact ⟨n, rfl, .step held hv⟩

/-- What can be reached from a node is what its rendering comes to, so it is sound. -/
theorem soundFrom (h : s.Healthy roots) {id : NodeId} (hid : s.Reachable roots (.node id)) :
    s.SoundFrom id := by
  intro x path
  have hx := hid.path path
  simp [isSound, h.typed hx, h.complete hx, Node.override?, h.plain]

theorem acyclicFrom (h : s.Healthy roots) {id : NodeId} (hid : s.Reachable roots (.node id)) :
    s.AcyclicFrom id :=
  fun _ path => h.acyclic (hid.path path)

end Healthy

end Store
end ScriptGraph
