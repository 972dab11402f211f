import ScriptGraph.Proofs.Building
import ScriptGraph.Proofs.Marking

/-!
What actions can come by. From values that are new or could be reached at the outset, fields,
items and parents lead to such values only. So an action never gets hold of what was lost
before it, and every parent is one that was assigned meanwhile or was there at the outset.
-/

namespace ScriptGraph

/-- The parent that was last given to a node, if one was given or it was cleared. -/
def World.lastLink (w : World) (id : NodeId) : Option (Option NodeId) :=
  (w.links.find? (·.child = id)).map (·.parent)

theorem World.lastLink_link_self (w : World) (child : NodeId) (parent : Option NodeId) :
    (w.link child parent).lastLink child = some parent := by
  simp [lastLink, link]

theorem World.lastLink_link_of_ne (w : World) {child id : NodeId} (parent : Option NodeId)
    (h : id ≠ child) : (w.link child parent).lastLink id = w.lastLink id := by
  simp [lastLink, link, h.symm]

namespace Node

theorem mem_held_setParent {n : Node} {parent : Option NodeId} {v : Value}
    (h : v ∈ (n.setParent parent).held) : v ∈ n.held := by
  simp only [held, setParent, List.map_append, List.mem_append] at h ⊢
  exact h.imp_right fun h => List.Sublist.subset (List.filter_sublist.map _) h

theorem mem_held_setExtra {n : Node} {name : String} {v u : Value}
    (h : u ∈ (n.setExtra name v).held) : u ∈ n.held ∨ u = v := by
  simp only [held, setExtra, List.map_append, List.map_cons, List.mem_append, List.mem_cons] at h ⊢
  rcases h with h | rfl | h
  · exact .inl (.inl h)
  · exact .inr rfl
  · exact .inl (.inr (List.Sublist.subset (List.filter_sublist.map _) h))

/-- Setting an attribute brings in nothing but its value. -/
theorem mem_held_setAttribute {n : Node} {name : String} {v u : Value}
    (h : u ∈ (n.setAttribute name v).held) : u ∈ n.held ∨ u = v := by
  unfold setAttribute at h
  split at h
  · rename_i shape found
    simp only [held, List.map_append, List.mem_append] at h ⊢
    rcases h with h | h
    · unfold Shape.setField? at found
      split at found <;> cases found <;> simp_all [Shape.fields] <;> tauto
    · exact .inl (.inr h)
  · split at h
    · split at h
      · exact .inl (mem_held_setParent h)
      · exact (mem_held_setExtra h).imp_left mem_held_setParent
    · exact mem_held_setExtra h

theorem setAttribute_keeps_link {n : Node} {name : String} (v : Value) (h : name ≠ linkName) :
    (n.setAttribute name v).parent = n.parent ∧
      (n.override? linkName = none → (n.setAttribute name v).override? linkName = none) := by
  unfold setAttribute
  split
  · exact ⟨rfl, id⟩
  · rw [if_neg h]
    refine ⟨rfl, fun none => ?_⟩
    simp only [override?, setExtra, List.lookup_eq_none_iff, List.mem_cons,
      List.mem_filter] at none ⊢
    rintro entry (rfl | mem)
    · exact bne_iff_ne.mpr h.symm
    · exact none entry mem.1

end Node

namespace Store
variable {s : Store} {u v : Value}

theorem has_of_mem_successors (h : v ∈ s.successors u) : s.Has u := by
  have mem := mem_handles_of_mem_successors h
  cases u with
  | node id => exact node_mem_handles.mp mem
  | list l => exact list_mem_handles.mp mem
  | null | bool _ | int _ _ | real _ _ | text _ _ => trivial

theorem mem_successors_addNode {shape : Shape} (h : v ∈ (s.addNode shape).successors u) :
    v ∈ s.successors u ∨ v ∈ shape.values := by
  cases u with
  | node id =>
      rw [successors] at h
      by_cases new : id = s.nextNode
      · rw [new, node_addNode_nextNode] at h
        exact .inr (by simpa [Node.held, Node.ofShape, Shape.values] using h)
      · rw [node_addNode_of_ne s shape new] at h
        exact .inl h
  | list _ => exact .inl h
  | null | bool _ | int _ _ | real _ _ | text _ _ => cases h

theorem mem_successors_addList {items : List Value} (h : v ∈ (s.addList items).successors u) :
    v ∈ s.successors u ∨ v ∈ items := by
  cases u with
  | node _ => exact .inl h
  | list l =>
      rw [successors, Store.items, addList] at h
      rw [successors, Store.items]
      simp only [Array.getD_eq_getD_getElem?, Array.getElem?_push] at h ⊢
      split at h
      · exact .inr h
      · exact .inl h
  | null | bool _ | int _ _ | real _ _ | text _ _ => cases h

theorem mem_successors_setItems {l : ListId} {items : List Value}
    (h : v ∈ (s.setItems l items).successors u) : v ∈ s.successors u ∨ v ∈ items := by
  cases u with
  | node _ => exact .inl h
  | list k =>
      by_cases same : k = l
      · have inStore : l.index < s.lists.size := by
          have has := has_of_mem_successors h
          rw [same] at has
          exact (has_setItems l items (v := .list l)).mp has
        rw [same, successors, items_setItems inStore] at h
        exact .inr h
      · rw [successors, items_setItems_of_ne same] at h
        exact .inl h
  | null | bool _ | int _ _ | real _ _ | text _ _ => cases h

theorem mem_successors_setNode {id : NodeId} {n : Node}
    (h : v ∈ (s.setNode id n).successors u) :
    v ∈ s.successors u ∨ u = .node id ∧ v ∈ n.held := by
  cases u with
  | node other =>
      by_cases same : other = id
      · have inStore : id.index < s.nodes.size := by
          have has := has_of_mem_successors h
          rw [same] at has
          simpa [Has, setNode] using has
        rw [same, successors, node_setNode_self s n inStore] at h
        exact .inr ⟨congrArg Value.node same, h⟩
      · rw [successors, node_setNode_of_ne s n same] at h
        exact .inl h
  | list _ => exact .inl h
  | null | bool _ | int _ _ | real _ _ | text _ _ => cases h

/-- No node gets a parent, or something in the place of the link, by being made. -/
theorem link_addNode (s : Store) (shape : Shape) (id : NodeId) :
    ((s.addNode shape).node id).parent = (s.node id).parent ∧
      ((s.addNode shape).node id).override? Node.linkName =
        (s.node id).override? Node.linkName := by
  by_cases new : id = s.nextNode
  · have before : s.node s.nextNode = .ofShape .bare := node_of_size_le (Nat.le_refl _)
    rw [new, node_addNode_nextNode, before]
    exact ⟨rfl, rfl⟩
  · rw [node_addNode_of_ne s shape new]
    exact ⟨rfl, rfl⟩

/-- At least as many nodes and lists. -/
def Grows (s s' : Store) : Prop :=
  s.nodes.size ≤ s'.nodes.size ∧ s.lists.size ≤ s'.lists.size

theorem Grows.refl (s : Store) : s.Grows s :=
  ⟨Nat.le_refl _, Nat.le_refl _⟩

theorem Grows.trans {s' s'' : Store} (h : s.Grows s') (k : s'.Grows s'') : s.Grows s'' :=
  ⟨Nat.le_trans h.1 k.1, Nat.le_trans h.2 k.2⟩

theorem Grows.has {s' : Store} (h : s.Grows s') (hv : s.Has v) : s'.Has v := by
  cases v with
  | node id => exact Nat.lt_of_lt_of_le hv h.1
  | list l => exact Nat.lt_of_lt_of_le hv h.2
  | null | bool _ | int _ _ | real _ _ | text _ _ => trivial

theorem grows_addNode (s : Store) (shape : Shape) : s.Grows (s.addNode shape) := by
  simp [Grows, addNode]

theorem grows_addList (s : Store) (items : List Value) : s.Grows (s.addList items) := by
  simp [Grows, addList]

theorem grows_setItems (s : Store) (l : ListId) (items : List Value) :
    s.Grows (s.setItems l items) := by
  simp [Grows, setItems]

theorem grows_setNode (s : Store) (id : NodeId) (n : Node) : s.Grows (s.setNode id n) := by
  simp [Grows, setNode]

end Store

/-- The store and the roots that a step sets out from. -/
structure Outset where
  store : Store
  roots : List Value

namespace Outset
variable {o : Outset}

/-- An object is known if it is new or could be reached at the outset. -/
def Knows (o : Outset) (s : Store) (v : Value) : Prop :=
  v.isHandle → s.Has v ∧ (o.store.Has v → o.store.Reachable o.roots v)

/-- What is known leads to what is known. Parents are those last assigned. -/
structure Confines (o : Outset) (w : World) : Prop where
  grows : o.store.Grows w.store
  closed {u v : Value} : o.Knows w.store u → v ∈ w.store.successors u → o.Knows w.store v
  parents (id : NodeId) :
    (w.store.node id).parent = (w.lastLink id).getD (o.store.node id).parent
  unmasked (id : NodeId) : (w.store.node id).override? Node.linkName = none

theorem Knows.mono {s s' : Store} (h : s.Grows s') {v : Value} (hv : o.Knows s v) :
    o.Knows s' v :=
  fun handle => ⟨h.has (hv handle).1, (hv handle).2⟩

theorem knows_of_not_isHandle {s : Store} {v : Value} (h : v.isHandle = false) : o.Knows s v :=
  fun handle => by rw [h] at handle; cases handle

theorem knows_of_new {s s' : Store} (grows : o.store.Grows s) {v : Value} (has : s'.Has v)
    (new : ¬ s.Has v) : o.Knows s' v :=
  fun _ => ⟨has, fun old => absurd (grows.has old) new⟩

/-- It is enough that what was written is known. -/
theorem closed_of_write {s s' : Store} (grows : s.Grows s')
    (closed : ∀ {u v : Value}, o.Knows s u → v ∈ s.successors u → o.Knows s v)
    (write : ∀ {u v : Value}, v ∈ s'.successors u → v ∈ s.successors u ∨ o.Knows s v)
    {u v : Value} (hu : o.Knows s' u) (hv : v ∈ s'.successors u) : o.Knows s' v := by
  rcases write hv with old | known
  · have before : o.Knows s u := fun handle =>
      ⟨Store.has_of_mem_successors old, (hu handle).2⟩
    exact (closed before old).mono grows
  · exact known.mono grows

namespace Confines
variable {w : World}

theorem of_same_store {w' : World} (h : o.Confines w) (store : w'.store = w.store)
    (links : w'.links = w.links) : o.Confines w' := by
  refine ⟨?_, ?_, fun id => ?_, ?_⟩
  · rw [store]
    exact h.grows
  · rw [store]
    exact h.closed
  · rw [store, World.lastLink, links]
    exact h.parents id
  · rw [store]
    exact h.unmasked

theorem addNode (h : o.Confines w) {shape : Shape}
    (known : ∀ v ∈ shape.values, o.Knows w.store v) :
    o.Confines { w with store := w.store.addNode shape } where
  grows := h.grows.trans (w.store.grows_addNode shape)
  closed := closed_of_write (w.store.grows_addNode shape) h.closed fun hv =>
    (Store.mem_successors_addNode hv).imp_right (known _)
  parents id := (w.store.link_addNode shape id).1.trans (h.parents id)
  unmasked id := (w.store.link_addNode shape id).2.trans (h.unmasked id)

theorem addList (h : o.Confines w) {items : List Value}
    (known : ∀ v ∈ items, o.Knows w.store v) :
    o.Confines { w with store := w.store.addList items } where
  grows := h.grows.trans (w.store.grows_addList items)
  closed := closed_of_write (w.store.grows_addList items) h.closed fun hv =>
    (Store.mem_successors_addList hv).imp_right (known _)
  parents := h.parents
  unmasked := h.unmasked

theorem setItems (h : o.Confines w) (l : ListId) {items : List Value}
    (known : ∀ v ∈ items, o.Knows w.store v) :
    o.Confines { w with store := w.store.setItems l items } where
  grows := h.grows.trans (w.store.grows_setItems l items)
  closed := closed_of_write (w.store.grows_setItems l items) h.closed fun hv =>
    (Store.mem_successors_setItems hv).imp_right (known _)
  parents := h.parents
  unmasked := h.unmasked

theorem link (h : o.Confines w) {child : NodeId} (inStore : child.index < w.store.nodes.size)
    (parent : Option NodeId) :
    o.Confines (w.link child parent) where
  grows := h.grows.trans (w.store.grows_setNode child _)
  closed := by
    refine closed_of_write (w.store.grows_setNode child _) h.closed fun hv => .inl ?_
    rcases Store.mem_successors_setNode hv with old | ⟨rfl, held⟩
    · exact old
    · exact Node.mem_held_setParent held
  parents id := by
    rw [World.store_link]
    by_cases same : id = child
    · subst same
      rw [w.lastLink_link_self, w.store.node_setParent_self parent inStore]
      rfl
    · rw [w.lastLink_link_of_ne parent same, w.store.node_setParent_of_ne parent same]
      exact h.parents id
  unmasked id := by
    rw [World.store_link]
    by_cases same : id = child
    · subst same
      rw [w.store.node_setParent_self parent inStore, Node.override?_setParent_linkName]
    · rw [w.store.node_setParent_of_ne parent same]
      exact h.unmasked id

theorem setAttribute (h : o.Confines w) {id : NodeId} (hid : o.Knows w.store (.node id))
    {name : String} (other : name ≠ Node.linkName) {v : Value} (hv : o.Knows w.store v) :
    o.Confines { w with store := w.store.setNode id ((w.store.node id).setAttribute name v) } where
  grows := h.grows.trans (w.store.grows_setNode id _)
  closed := by
    refine closed_of_write (w.store.grows_setNode id _) h.closed fun {_ x} hx => ?_
    rcases Store.mem_successors_setNode hx with old | ⟨rfl, held⟩
    · exact .inl old
    · rcases Node.mem_held_setAttribute held with held | rfl
      · exact .inl held
      · exact .inr hv
  parents x := by
    by_cases same : x = id
    · subst same
      rw [w.store.node_setNode_self _ (hid rfl).1, (Node.setAttribute_keeps_link v other).1]
      exact h.parents x
    · rw [w.store.node_setNode_of_ne _ same]
      exact h.parents x
  unmasked x := by
    by_cases same : x = id
    · subst same
      rw [w.store.node_setNode_self _ (hid rfl).1]
      exact (Node.setAttribute_keeps_link v other).2 (h.unmasked x)
    · rw [w.store.node_setNode_of_ne _ same]
      exact h.unmasked x

/-- Whatever can be reached from known values is known. -/
theorem knows_of_reachable (h : o.Confines w) {roots : List Value}
    (hr : ∀ r ∈ roots, o.Knows w.store r) {v : Value} (reached : w.store.Reachable roots v) :
    o.Knows w.store v := by
  induction reached with
  | root mem => exact hr _ mem
  | step _ mem ih => exact h.closed ih mem

end Confines

section
variable {S α β : Type}

/-- After an action the invariant of its states holds still, and the values in its result are
known in the store that such a state has. -/
def UpholdsAt (o : Outset) (store : S → Store) (inv : S → Prop) (act : EStateM Fault S α) (x : S)
    (result : α → List Value) : Prop :=
  Ends act x
    (fun a x' => inv x' ∧ (store x).Grows (store x') ∧ ∀ v ∈ result a, o.Knows (store x') v)
    (fun x' => inv x' ∧ (store x).Grows (store x'))

/-- The action comes by nothing unknown when it is given known values. -/
def Upholds (o : Outset) (store : S → Store) (inv : S → Prop) (act : EStateM Fault S α)
    (given : List Value) (result : α → List Value) : Prop :=
  ∀ x, inv x → (∀ v ∈ given, o.Knows (store x) v) → o.UpholdsAt store inv act x result

namespace Upholds
variable {store : S → Store} {inv : S → Prop} {act : EStateM Fault S α}
variable {f : α → EStateM Fault S β} {given : List Value}
variable {result : α → List Value} {final : β → List Value}

theorem pure {a : α} (h : ∀ v ∈ result a, v.isHandle → v ∈ given) :
    o.Upholds store inv (Pure.pure a) given result := by
  refine fun _ hx known => ⟨hx, .refl _, fun v hv handle => ?_⟩
  exact known v (h v hv handle) handle

theorem throw (fault : Fault) :
    o.Upholds store inv (MonadExcept.throw fault : EStateM Fault S α) given result :=
  fun _ hx _ => ⟨hx, .refl _⟩

theorem bind (h : o.Upholds store inv act given result)
    (k : ∀ a, o.Upholds store inv (f a) (result a ++ given) final) :
    o.Upholds store inv (act >>= f) given final := by
  intro x hx known
  refine Ends.bind (h x hx known) fun a x₁ ⟨hx₁, grows, results⟩ => ?_
  have next := k a x₁ hx₁ fun v hv => ?_
  · exact next.mono (fun _ _ ⟨hx₂, later, known'⟩ => ⟨hx₂, grows.trans later, known'⟩)
      fun _ ⟨hx₂, later⟩ => ⟨hx₂, grows.trans later⟩
  · rcases List.mem_append.mp hv with hv | hv
    · exact results v hv
    · exact (known v hv).mono grows

theorem weaken {more : List Value} (h : o.Upholds store inv act given result)
    (hsub : ∀ v ∈ given, v.isHandle → v ∈ more) : o.Upholds store inv act more result :=
  fun x hx known => h x hx fun v hv handle => known v (hsub v hv handle) handle

end Upholds

end

variable {α β : Type}

/-- After an action everything is still confined. -/
abbrev StaysAt (o : Outset) (act : Action α) (w : World) (result : α → List Value) : Prop :=
  o.UpholdsAt World.store o.Confines act w result

abbrev Stays (o : Outset) (act : Action α) (given : List Value) (result : α → List Value) : Prop :=
  o.Upholds World.store o.Confines act given result

namespace Upholds
variable {given : List Value} {result : α → List Value} {final : β → List Value}

/-- The rest of an action may depend on the store as it is then. -/
theorem store {f : Store → Action β} (h : ∀ w, o.Confines w →
    (∀ v ∈ given, o.Knows w.store v) → o.StaysAt (f w.store) w final) :
    o.Stays (Action.store >>= f) given final :=
  h

theorem store_any {f : Store → Action β} (h : ∀ s, o.Stays (f s) given final) :
    o.Stays (Action.store >>= f) given final :=
  fun w hw known => h w.store w hw known

/-- Reading gives known values, if the store leads from the given ones to them. -/
theorem query {f : Store → Except Fault α} (h : ∀ w a, o.Confines w →
    (∀ v ∈ given, o.Knows w.store v) → f w.store = .ok a → ∀ v ∈ result a, o.Knows w.store v) :
    o.Stays (Action.query f) given result := by
  refine store fun w hw known => ?_
  cases hf : f w.store with
  | ok a => exact ⟨hw, .refl _, h w a hw known hf⟩
  | error fault => exact ⟨hw, .refl _⟩

theorem lacks (v : Value) (member : String) :
    o.Stays (Action.lacks v member : Action α) given result :=
  store_any fun _ => throw _

theorem refuse (v : Value) (member : String) :
    o.Stays (Action.refuse v member : Action α) given result :=
  store_any fun _ => throw _

end Upholds

/-- No values are found in the result. -/
def nothing (_ : α) : List Value :=
  []

end Outset
end ScriptGraph
