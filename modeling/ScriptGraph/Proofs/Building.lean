import ScriptGraph.Proofs.Healthy
import ScriptGraph.Session.Step

/-!
Construction from arguments of the right types, pushing and popping keep stores healthy,
whether they succeed or not: what an action has done when it fails is harmless, too.
-/

namespace ScriptGraph

/-- What holds of the state after an action, when it is done and when it has failed. -/
def Ends {S α : Type} (act : EStateM Fault S α) (x : S) (done : α → S → Prop)
    (failed : S → Prop) : Prop :=
  match act x with
  | .ok a x' => done a x'
  | .error _ x' => failed x'

namespace Ends
variable {S α β : Type} {act : EStateM Fault S α} {x : S} {done done' : α → S → Prop}
variable {failed failed' : S → Prop}

theorem mono (h : Ends act x done failed) (hd : ∀ a x', done a x' → done' a x')
    (hf : ∀ x', failed x' → failed' x') : Ends act x done' failed' := by
  unfold Ends at h ⊢
  split at h
  · exact hd _ _ h
  · exact hf _ h

theorem bind {f : α → EStateM Fault S β} {next : β → S → Prop} (h : Ends act x done failed)
    (k : ∀ a x', done a x' → Ends (f a) x' next failed) : Ends (act >>= f) x next failed := by
  unfold Ends at h
  change Ends (EStateM.bind act f) x next failed
  unfold Ends EStateM.bind
  cases hact : act x with
  | ok a x' =>
      rw [hact] at h
      exact k a x' h
  | error fault x' =>
      rw [hact] at h
      exact h

end Ends

namespace Action
variable {α β : Type}

/-- What holds of the store after an action, when it is done and when it has failed. -/
def Ensures (act : Action α) (w : World) (done : α → Store → Prop) (failed : Store → Prop) : Prop :=
  match act w with
  | .ok a w' => done a w'.store
  | .error _ w' => failed w'.store

namespace Ensures
variable {act : Action α} {w : World} {done done' : α → Store → Prop}
variable {failed failed' : Store → Prop}

theorem iff_ends : act.Ensures w done failed ↔
    Ends act w (fun a w' => done a w'.store) fun w' => failed w'.store := by
  unfold Ensures Ends
  cases act w <;> rfl

theorem mono (h : act.Ensures w done failed) (hd : ∀ a s, done a s → done' a s)
    (hf : ∀ s, failed s → failed' s) : act.Ensures w done' failed' :=
  iff_ends.mpr ((iff_ends.mp h).mono (fun a w' => hd a w'.store) fun w' => hf w'.store)

theorem bind {f : α → Action β} {next : β → Store → Prop} (h : act.Ensures w done failed)
    (k : ∀ a w', done a w'.store → (f a).Ensures w' next failed) :
    (act >>= f).Ensures w next failed :=
  iff_ends.mpr ((iff_ends.mp h).bind fun a w' ha => iff_ends.mp (k a w' ha))

theorem store {f : Store → Action α} (h : (f w.store).Ensures w done failed) :
    (Action.store >>= f).Ensures w done failed :=
  h

end Ensures

/-- Whatever comes of an action, the store after it is related to the one before. -/
def Keeping (P : Store → Store → Prop) (act : Action α) : Prop :=
  ∀ w, act.Ensures w (fun _ s => P w.store s) (fun s => P w.store s)

namespace Keeping
variable {P : Store → Store → Prop} [IsPreorder Store P]

theorem pure (a : α) : (Pure.pure a : Action α).Keeping P :=
  fun w => refl_of P w.store

theorem throw (fault : Fault) : (MonadExcept.throw fault : Action α).Keeping P :=
  fun w => refl_of P w.store

theorem bind {act : Action α} {f : α → Action β} (h : act.Keeping P)
    (k : ∀ a, (f a).Keeping P) : (act >>= f).Keeping P := by
  intro w
  refine Ensures.bind (h w) fun a w' ha => ?_
  exact (k a w').mono (fun _ _ h => trans_of P ha h) (fun _ h => trans_of P ha h)

theorem store : Action.store.Keeping P :=
  fun w => refl_of P w.store

theorem ofExcept (x : Except Fault α) : (Action.ofExcept x).Keeping P := by
  cases x with
  | ok a => exact pure a
  | error fault => exact throw fault

theorem query (f : Store → Except Fault α) : (Action.query f).Keeping P :=
  store.bind fun _ => ofExcept _

theorem lacks (v : Value) (member : String) : (Action.lacks v member : Action α).Keeping P :=
  store.bind fun _ => throw _

theorem refuse (v : Value) (member : String) : (Action.refuse v member : Action α).Keeping P :=
  store.bind fun _ => throw _

theorem expectOwn (id : NodeId) (member : String) : (Action.expectOwn id member).Keeping P := by
  refine store.bind fun s => ?_
  split
  · exact refuse _ _
  · exact pure _

/-- Making a node the parent of a value sets the parent of at most one node. -/
theorem adopt (link : ∀ s child owner, P s (Store.setParent s child owner)) (parent : NodeId)
    (v : Value) : (Action.adopt parent v).Keeping P := by
  refine bind (expectOwn _ _) fun _ => ?_
  cases v with
  | null => exact pure _
  | node child => exact bind (expectOwn _ _) fun _ w => link w.store child _
  | bool _ | int _ _ | real _ _ | text _ _ | list _ => exact lacks _ _

theorem adoptAll (link : ∀ s child owner, P s (Store.setParent s child owner)) (parent : NodeId)
    (vs : List Value) : (Action.adoptAll parent vs).Keeping P := by
  induction vs with
  | nil => exact pure _
  | cons v vs ih => exact (adopt link parent v).bind fun _ => ih

/-- Nor does the adoption of all children of a node set anything but parents. -/
theorem adoptSlots (link : ∀ s child owner, P s (Store.setParent s child owner))
    (parent : NodeId) (slots : List Slot) : (Action.adoptSlots parent slots).Keeping P := by
  induction slots with
  | nil => exact pure _
  | cons slot slots ih =>
      have first : (Action.adoptSlot parent slot).Keeping P := by
        cases slot with
        | one v => exact adopt link _ _
        | every v => exact bind (query _) fun _ => adoptAll link _ _
        | nodesAmong v => exact bind (query _) fun _ => adoptAll link _ _
      exact first.bind fun _ => ih

theorem assignParent (link : ∀ s child owner, P s (Store.setParent s child owner))
    (v parent : Value) : (Action.assignParent v parent).Keeping P := by
  cases v with
  | node id =>
      refine bind (expectOwn _ _) fun _ => ?_
      cases parent with
      | null | node _ => exact fun w => link w.store id _
      | bool _ | int _ _ | real _ _ | text _ _ | list _ => exact bind store fun _ => throw _
  | null | bool _ | int _ _ | real _ _ | text _ _ | list _ => exact lacks _ _

end Keeping

/-- Nothing that is in the store is changed, parents apart. -/
abbrev Carrying (act : Action α) : Prop :=
  act.Keeping Store.Carries

instance : IsPreorder Store Store.Carries where
  refl := Store.Carries.refl
  trans _ _ _ := Store.Carries.trans

end Action

namespace Store
variable {s : Store}

theorem carries_addNode (s : Store) (shape : Shape) : s.Carries (s.addNode shape) where
  node {id} hid := by
    have other : id ≠ s.nextNode := by
      rintro rfl
      exact Nat.lt_irrefl _ hid
    refine ⟨?_, by rw [Store.shape, node_addNode_of_ne s shape other]; rfl⟩
    simp only [addNode, Array.size_push]
    omega
  list hl := ⟨hl, rfl⟩
  plain h id := by
    by_cases other : id = s.nextNode
    · rw [other, node_addNode_nextNode]
      rfl
    · rw [node_addNode_of_ne s shape other]
      exact h id

theorem carries_addList (s : Store) (items : List Value) : s.Carries (s.addList items) where
  node hid := ⟨hid, rfl⟩
  list {l} hl := by
    have size : l.index < (s.addList items).lists.size := by
      simp only [addList, Array.size_push]
      omega
    have other : l.index ≠ s.lists.size := Nat.ne_of_lt hl
    refine ⟨size, ?_⟩
    simp [Store.items, addList, Array.getD_eq_getD_getElem?, Array.getElem?_push, other]
  plain h := h

/-- Only the parent of a node differs. -/
theorem carries_setParent (s : Store) (child : NodeId) (parent : Option NodeId) :
    s.Carries (s.setParent child parent) where
  node hid := ⟨by rw [size_setParent]; exact hid, s.shape_setParent child parent _⟩
  list hl := ⟨hl, rfl⟩
  plain h id := by
    rcases s.node_setParent child parent id with e | e
    · rw [e]
      exact h id
    · rw [e]
      simp [Node.setParent, h id]

theorem carries_sweep (s : Store) (roots : List Value) : s.Carries (s.sweep roots) where
  node {id} hid := ⟨by simpa [sweep] using hid, by rw [shape, node_sweep]; rfl⟩
  list hl := ⟨hl, rfl⟩
  plain h id := by
    rw [node_sweep]
    exact h id

end Store

namespace Action

theorem adopt_carrying (parent : NodeId) (v : Value) : (adopt parent v).Carrying :=
  Keeping.adopt Store.carries_setParent parent v

theorem adoptSlots_carrying (parent : NodeId) (slots : List Slot) :
    (adoptSlots parent slots).Carrying :=
  Keeping.adoptSlots Store.carries_setParent parent slots

theorem assignParent_carrying (v parent : Value) : (assignParent v parent).Carrying :=
  Keeping.assignParent Store.carries_setParent v parent

theorem length_carrying (v : Value) : (length v).Carrying := by
  cases v with
  | list id => exact Keeping.bind .store fun _ => .pure _
  | text t origin => exact .pure _
  | null | bool _ | int _ _ | real _ _ | node _ => exact Keeping.bind .store fun _ => .throw _

variable {roots : List Value}

/-- An action that leaves everything in place leaves the store healthy. -/
theorem Keeping.healthy {α : Type} {act : Action α} (h : act.Carrying) {w : World}
    (hs : w.store.Healthy roots) :
    act.Ensures w (fun _ s => s.Healthy roots) (fun s => s.Healthy roots) :=
  (h w).mono (fun _ _ c => c.healthy hs) (fun _ c => c.healthy hs)

/-- The program and its elements are found without a change to the store. -/
theorem elementsFor_ensures (member : String) (v : Value) (w : World) :
    (elementsFor member v).Ensures w
      (fun found s => s = w.store ∧ v = .node found.1 ∧
        ∃ strict, s.shape found.1 = .program strict found.2)
      (fun s => s = w.store) := by
  cases v with
  | node id =>
      have own : (expectOwn id member).Ensures w (fun _ s => s = w.store)
          (fun s => s = w.store) := by
        refine Ensures.store ?_
        split
        · rfl
        · rfl
      refine own.bind fun _ w' hw' => Ensures.store ?_
      cases hs : w'.store.shape id with
      | program strict elements => exact ⟨hw', rfl, strict, hs⟩
      | bare | empty | boolean _ | block _ | conditional _ _ _ | caseGroup _ _ | switch _ _
      | declarator _ _ | declaration _ | function _ _ _ => exact hw'
  | null | bool _ | int _ _ | real _ _ | text _ _ | list _ => rfl

/-- The values can be pushed into the program without closing a cycle. -/
def Pushable (s : Store) (roots : List Value) (m : NodeId) (vs : List Value) : Prop :=
  ∀ v ∈ vs, ∃ n, v = .node n ∧ s.Reachable roots v ∧ ¬ Relation.ReflTransGen s.Edge n m

theorem appendTo_healthy {m : NodeId} {l : ListId} {strict v : Value} {vs : List Value} {w : World}
    (hs : w.store.Healthy roots) (hm : w.store.Reachable roots (.node m))
    (program : w.store.shape m = .program strict (.list l))
    (hvs : Pushable w.store roots m (v :: vs)) :
    (appendTo (.list l) v).Ensures w
      (fun _ s => s.Healthy roots ∧ s.Reachable roots (.node m) ∧
        s.shape m = .program strict (.list l) ∧ Pushable s roots m vs)
      (fun s => s.Healthy roots) := by
  obtain ⟨_, e, nodes⟩ := hs.elements hm program
  cases e
  have replaces : w.store.Replaces roots m l (w.store.items l ++ [v]) := by
    refine ⟨hm, ⟨strict, program⟩, fun {u} hu => ?_⟩
    rcases List.mem_append.mp hu with hu | hu
    · obtain ⟨n, rfl, reached⟩ := nodes u hu
      exact ⟨n, rfl, reached, .inl hu⟩
    · obtain rfl := List.mem_singleton.mp hu
      obtain ⟨n, hn, reached, apart⟩ := hvs u (by simp)
      exact ⟨n, hn, reached, .inr apart⟩
  have kept : ∀ u ∈ w.store.items l, u ∈ w.store.items l ++ [v] := by simp +contextual
  refine ⟨replaces.healthy hs fun r hr _ => .root hr, replaces.reachable_setItems hs kept hm,
    program, fun u hu => ?_⟩
  obtain ⟨n, rfl, reached, apart⟩ := hvs u (by simp [hu])
  exact ⟨n, rfl, replaces.reachable_setItems hs kept reached,
    fun path => apart (replaces.path_to_program hs reached path)⟩

theorem pushEach_healthy {m : NodeId} {l : ListId} {strict : Value} (vs : List Value) {w : World}
    (hs : w.store.Healthy roots) (hm : w.store.Reachable roots (.node m))
    (program : w.store.shape m = .program strict (.list l))
    (hvs : Pushable w.store roots m vs) :
    (pushEach m (.list l) vs).Ensures w (fun _ s => s.Healthy roots)
      (fun s => s.Healthy roots) := by
  induction vs generalizing w with
  | nil => exact hs
  | cons v vs ih =>
      have adopted := (adopt_carrying m v w).mono (fun _ _ c => c) (fun _ c => c.healthy hs)
      refine adopted.bind fun _ w₁ c => ?_
      have pushable : Pushable w₁.store roots m (v :: vs) := by
        intro u hu
        obtain ⟨n, rfl, reached, apart⟩ := hvs u hu
        exact ⟨n, rfl, (c.reachable_iff hs).mpr reached, fun path => apart (c.path hs reached path)⟩
      have program := (c.node (hs.has hm rfl)).2.trans program
      have reached := (c.reachable_iff hs).mpr hm
      have appended := appendTo_healthy (c.healthy hs) reached program pushable
      exact appended.bind fun _ w₂ h => ih h.1 h.2.1 h.2.2.1 h.2.2.2

theorem push_healthy {target : Value} {vs : List Value} {w : World} (hs : w.store.Healthy roots)
    (htarget : target.isHandle → w.store.Reachable roots target)
    (hvs : ∀ m, target = .node m → Pushable w.store roots m vs) :
    (push target vs).Ensures w (fun _ s => s.Healthy roots) (fun s => s.Healthy roots) := by
  have found := (elementsFor_ensures "push" target w).mono (fun _ _ h => h)
    (fun s (h : s = w.store) => h ▸ hs)
  refine found.bind fun p w₁ h => ?_
  obtain ⟨m, elements⟩ := p
  obtain ⟨same, rfl, strict, program⟩ := h
  rw [← same] at hs hvs htarget
  have hm := htarget rfl
  obtain ⟨l, rfl, -⟩ := hs.elements hm program
  refine (pushEach_healthy vs hs hm program (hvs m rfl)).bind fun _ w₂ h₂ => ?_
  exact ((length_carrying _).healthy h₂).bind fun _ w₃ h₃ => h₃

theorem removeLast_healthy {m : NodeId} {l : ListId} {strict : Value} {w : World}
    (hs : w.store.Healthy roots) (hm : w.store.Reachable roots (.node m))
    (program : w.store.shape m = .program strict (.list l)) :
    (removeLast l).Ensures w (fun v s => s.Healthy (v :: roots)) (fun s => s.Healthy roots) := by
  obtain ⟨_, e, nodes⟩ := hs.elements hm program
  cases e
  refine Ensures.store ?_
  cases last : (w.store.items l).getLast? with
  | none => exact hs
  | some v =>
      have replaces : w.store.Replaces roots m l (w.store.items l).dropLast := by
        refine ⟨hm, ⟨strict, program⟩, fun {u} hu => ?_⟩
        have old : u ∈ w.store.items l := List.dropLast_subset _ hu
        obtain ⟨n, rfl, reached⟩ := nodes u old
        exact ⟨n, rfl, reached, .inl old⟩
      refine replaces.healthy hs fun r hr _ => ?_
      rcases List.mem_cons.mp hr with rfl | hr
      · obtain ⟨n, -, reached⟩ := nodes r (List.mem_of_getLast? last)
        exact reached
      · exact .root hr

theorem pop_healthy {target : Value} {w : World} (hs : w.store.Healthy roots)
    (htarget : target.isHandle → w.store.Reachable roots target) :
    (pop target).Ensures w (fun v s => s.Healthy (v :: roots)) (fun s => s.Healthy roots) := by
  refine Ensures.store ?_
  have found := (elementsFor_ensures "pop" target w).mono (fun _ _ h => h)
    (fun s (h : s = w.store) => h ▸ hs)
  refine found.bind fun p w₁ h => Ensures.store ?_
  obtain ⟨m, elements⟩ := p
  obtain ⟨same, rfl, strict, program⟩ := h
  rw [← same] at hs htarget
  have hm := htarget rfl
  obtain ⟨l, rfl, nodes⟩ := hs.elements hm program
  split
  · refine hs.weaken fun r hr handle => ?_
    rcases List.mem_cons.mp hr with rfl | hr
    · cases handle
    · exact .root hr
  · refine (removeLast_healthy hs hm program).bind fun v w₂ h₂ => ?_
    have counted := ((length_carrying (.list l)).healthy h₂).mono (fun _ _ h => h)
      (fun _ h => h.tail)
    exact counted.bind fun _ w₃ h₃ => h₃

end Action
end ScriptGraph
