import ScriptGraph.Proofs.Correspondence
import ScriptGraph.Proofs.Run

/-!
Rendering sees the picture of a node and nothing else of the store. So it does not
change with parents, nor with objects that the node does not lead to.
-/

namespace ScriptGraph

/-- Both settings look the same, and there is as much memory. -/
structure Settings.SamePicture (s s' : Store) (settings settings' : Settings) : Prop where
  indentWidth : s.picture renderingMembers settings.indentWidth =
    s'.picture renderingMembers settings'.indentWidth
  directive : s.picture renderingMembers settings.directive =
    s'.picture renderingMembers settings'.directive
  memory : settings.memory = settings'.memory

/-- Without cycles, and with the same picture. -/
def SamePicture (s s' : Store) (v v' : Value) : Prop :=
  s.AcyclicBelow v ∧ s'.AcyclicBelow v' ∧
    s.picture renderingMembers v = s'.picture renderingMembers v'

section
variable {s s' : Store} {settings settings' : Settings}

theorem forall₂_of_map_picture {us us' : List Value} (h : ∀ u ∈ us, s.AcyclicBelow u)
    (h' : ∀ u ∈ us', s'.AcyclicBelow u)
    (same : us.map (s.picture renderingMembers) = us'.map (s'.picture renderingMembers)) :
    List.Forall₂ (SamePicture s s') us us' := by
  induction us generalizing us' with
  | nil =>
      cases us' with
      | nil => exact .nil
      | cons u' us' => cases same
  | cons u us ih =>
      cases us' with
      | nil => cases same
      | cons u' us' =>
          simp only [List.map_cons, List.cons.injEq] at same
          refine .cons ⟨h u (by simp), h' u' (by simp), same.1⟩ ?_
          exact ih (fun u hu => h u (by simp [hu])) (fun u hu => h' u (by simp [hu])) same.2

theorem SamePicture.node {a b : NodeId} (h : SamePicture s s' (.node a) (.node b)) :
    Alike s s' (SamePicture s s') (.node a) (.node b) := by
  obtain ⟨acyclic, acyclic', same⟩ := h
  rw [Store.picture_node acyclic, Store.picture_node acyclic', Picture.node.injEq] at same
  obtain ⟨kind, fields, overrides⟩ := same
  refine .node (Shape.rel_of_forall₂ kind (forall₂_of_map_picture (fun u hu => ?_)
    (fun u hu => ?_) fields)) fun member hm => ?_
  · exact acyclic.of_mem_successors (Store.mem_successors_of_mem_values hu)
  · exact acyclic'.of_mem_successors (Store.mem_successors_of_mem_values hu)
  · have both := List.map_inj_left.mp overrides member hm
    cases found : (s.node a).override? member with
    | none =>
        cases found' : (s'.node b).override? member with
        | none => exact .none
        | some u' => simp [found, found'] at both
    | some u =>
        cases found' : (s'.node b).override? member with
        | none => simp [found, found'] at both
        | some u' =>
            simp only [found, found', Option.map_some, Option.some.injEq] at both
            exact .some ⟨acyclic.of_mem_successors (Store.mem_successors_of_override? found),
              acyclic'.of_mem_successors (Store.mem_successors_of_override? found'), both⟩

theorem SamePicture.list {l l' : ListId} (h : SamePicture s s' (.list l) (.list l')) :
    Alike s s' (SamePicture s s') (.list l) (.list l') := by
  obtain ⟨acyclic, acyclic', same⟩ := h
  rw [Store.picture_list acyclic, Store.picture_list acyclic', Picture.list.injEq] at same
  exact .list (forall₂_of_map_picture (fun _ => acyclic.of_mem_successors)
    (fun _ => acyclic'.of_mem_successors) same)

theorem samePicture_correspondence : Correspondence s s' (SamePicture s s') where
  look {v v'} h := by
    have same := h.2.2
    cases v <;> cases v' <;>
      simp only [Store.picture, Store.pictureWithin, reduceCtorEq] at same
    case null => exact .null
    case bool => cases same; exact .bool _
    case int => cases same; exact .int _ _ _
    case real => cases same; exact .real _ _ _
    case text => cases same; exact .text _ _ _
    case list => exact h.list
    case node => exact h.node
  text t :=
    ⟨.of_not_isHandle (by simp [Value.isHandle]), .of_not_isHandle (by simp [Value.isHandle]), rfl⟩
  again hu _ below below' := by
    constructor
    · rintro rfl
      exact absurd below hu.1.not_below
    · rintro rfl
      exact absurd below' hu.2.1.not_below

/-- What is used of a width shows in its picture. -/
theorem width_eq_of_picture {v v' : Value}
    (same : s.picture renderingMembers v = s'.picture renderingMembers v') :
    checkWidth v = checkWidth v' ∧ ∀ memory, repeatCount memory v = repeatCount memory v' := by
  cases v <;> cases v' <;> simp only [Store.picture, Store.pictureWithin, reduceCtorEq] at same
  case null | list | node | text => exact ⟨rfl, fun _ => rfl⟩
  case bool | int | real => cases same; exact ⟨rfl, fun _ => rfl⟩

theorem expectStart_eq_of_picture {v v' : Value}
    (same : s.picture renderingMembers v = s'.picture renderingMembers v') :
    s.expectStart v = s'.expectStart v' := by
  cases v <;> cases v' <;> simp only [Store.picture, Store.pictureWithin, reduceCtorEq] at same
  case null | list | bool | int | real => rfl
  case text => cases same; rfl
  case node =>
    simp only [Picture.node.injEq] at same
    simp only [Store.expectStart, Store.typeName, same.1]

theorem Settings.SamePicture.matches (h : settings.SamePicture s s' settings') :
    settings.Matches s s' settings' where
  sign := (width_eq_of_picture h.indentWidth).1
  count := by
    rw [h.memory]
    exact (width_eq_of_picture h.indentWidth).2 _
  start := expectStart_eq_of_picture h.directive

theorem map_picture_eq_of_agrees {x y : Except Fault Value} (h : Agrees (SamePicture s s') x y) :
    x.map (s.picture renderingMembers) = y.map (s'.picture renderingMembers) := by
  cases h with
  | ok h => exact congrArg Except.ok h.2.2
  | error fault => rfl

end

namespace Store
variable {s s' : Store}

/-- The other store holds the same under a handle: a list its items, a node its fields and what
stands in the place of its operations. Its parent may be another one. -/
def Retains (s s' : Store) : Value → Prop
  | .list l => s'.items l = s.items l
  | .node id => s'.shape id = s.shape id ∧
    ∀ member ≠ Node.linkName, (s'.node id).override? member = (s.node id).override? member
  | .null | .bool _ | .int .. | .real .. | .text .. => True

theorem Retains.refl (s : Store) (v : Value) : s.Retains s v := by
  cases v with
  | node id => exact ⟨rfl, fun _ _ => rfl⟩
  | list l => rfl
  | null | bool _ | int _ _ | real _ _ | text _ _ => trivial

theorem Retains.trans {s'' : Store} {v : Value} (h : s.Retains s' v) (k : s'.Retains s'' v) :
    s.Retains s'' v := by
  cases v with
  | node id => exact ⟨k.1.trans h.1, fun member hm => (k.2 member hm).trans (h.2 member hm)⟩
  | list l => exact Eq.trans k h
  | null | bool _ | int _ _ | real _ _ | text _ _ => trivial

theorem Retains.typeName {v : Value} (h : s.Retains s' v) : s'.typeName v = s.typeName v := by
  cases v with
  | node id => exact congrArg (fun shape => shape.kind.label) h.1
  | null | bool _ | int _ _ | real _ _ | text _ _ | list _ => rfl

/-- The same value, found from a node. -/
def FoundFrom (s : Store) (a : NodeId) (v v' : Value) : Prop :=
  v' = v ∧ (v.isHandle → s.Reachable [.node a] v)

theorem foundFrom_parts {a : NodeId} {u : Value} (reached : s.Reachable [.node a] u)
    {us : List Value} (hus : ∀ v ∈ us, v ∈ s.successors u) :
    List.Forall₂ (s.FoundFrom a) us us :=
  List.forall₂_same.mpr fun v hv => ⟨rfl, fun _ => .step reached (hus v hv)⟩

theorem foundFrom_correspondence {a : NodeId}
    (h : ∀ v, s.Reachable [.node a] v → s.Retains s' v) :
    Correspondence s s' (s.FoundFrom a) where
  look {v _} hv := by
    obtain ⟨rfl, reached⟩ := hv
    rename_i v
    cases v with
    | null => exact .null
    | bool b => exact .bool b
    | int n origin => exact .int n origin origin
    | real x origin => exact .real x origin origin
    | text t origin => exact .text t origin origin
    | list l =>
        have same : s'.items l = s.items l := h _ (reached rfl)
        refine .list ?_
        rw [same]
        exact foundFrom_parts (reached rfl) fun v hv => hv
    | node id =>
        obtain ⟨shape, overrides⟩ := h _ (reached rfl)
        refine .node ?_ fun member hm => ?_
        · rw [shape]
          exact Shape.rel_of_forall₂ rfl
            (foundFrom_parts (reached rfl) fun v hv => mem_successors_of_mem_values hv)
        · have other : member ≠ Node.linkName := by
            rintro rfl
            simp [renderingMembers, Node.linkName] at hm
          rw [overrides member other]
          cases found : (s.node id).override? member with
          | none => exact .none
          | some u =>
              exact .some ⟨rfl, fun _ => .step (reached rfl) (mem_successors_of_override? found)⟩
  text t := ⟨rfl, by simp [Value.isHandle]⟩
  again := by
    rintro u u' v v' ⟨rfl, -⟩ ⟨rfl, -⟩ - -
    exact Iff.rfl

/-- A node is rendered alike wherever all that it leads to is found. -/
theorem render_eq_of_retains {settings : Settings} {a : NodeId}
    (h : ∀ v, s.Reachable [.node a] v → s.Retains s' v)
    (directive : s'.typeName settings.directive = s.typeName settings.directive) :
    s'.render settings a = s.render settings a := by
  have m : settings.Matches s s' settings := by
    refine ⟨rfl, rfl, ?_⟩
    cases hd : settings.directive with
    | text t origin | list l => rfl
    | null | bool _ | int _ _ | real _ _ | node _ =>
        rw [hd] at directive
        simp only [expectStart, directive]
  have here : s.FoundFrom a (.node a) (.node a) := ⟨rfl, fun _ => .root (by simp)⟩
  exact ((foundFrom_correspondence h).render m here).eq_of_eq fun _ _ found => found.1

/-- Everything is in the other store, parents apart. -/
def RetainsAll (s s' : Store) : Prop :=
  ∀ v, s.Retains s' v

instance : IsPreorder Store RetainsAll where
  refl s := Retains.refl s
  trans _ _ _ h k v := (h v).trans (k v)

theorem retainsAll_setParent (s : Store) (child : NodeId) (parent : Option NodeId) :
    s.RetainsAll (s.setParent child parent) := by
  intro v
  cases v with
  | node id =>
      exact ⟨s.shape_setParent child parent id,
        fun _ hm => s.override?_setParent child parent id hm⟩
  | list l => rfl
  | null | bool _ | int _ _ | real _ _ | text _ _ => trivial

theorem retainsAll_sweep (s : Store) (roots : List Value) : s.RetainsAll (s.sweep roots) := by
  intro v
  cases v with
  | node id =>
      refine ⟨?_, fun member _ => ?_⟩
      · rw [shape, node_sweep]
        rfl
      · rw [node_sweep]
        rfl
  | list l => rfl
  | null | bool _ | int _ _ | real _ _ | text _ _ => trivial

theorem RetainsAll.render (h : s.RetainsAll s') (settings : Settings) (a : NodeId) :
    s'.render settings a = s.render settings a :=
  render_eq_of_retains (fun v _ => h v) (h settings.directive).typeName

end Store

namespace Operation

/-- Whether the operation sets a parent and does nothing else. -/
def isLinking : Operation → Bool
  | setParent .. | adopt .. => true
  | makeList .. | construct .. | push .. | pop .. | bind .. | unbind _ => false

end Operation

namespace Session

/-- A session is left with the same nodes and lists, parents apart. -/
theorem retainsAll_apply (σ : Session) {op : Operation} (linking : op.isLinking) :
    σ.world.store.RetainsAll (σ.apply op).world.store := by
  have lifted (act : Action Unit) (h : act.Keeping Store.RetainsAll)
      (hop : op.perform = Scripted.lift act) :
      σ.world.store.RetainsAll (σ.apply op).world.store := by
    have kept := h σ.world
    unfold Action.Ensures at kept
    unfold apply
    rw [hop]
    unfold Scripted.lift
    cases hact : act σ.world with
    | ok a w | error fault w =>
        rw [hact] at kept
        exact trans_of Store.RetainsAll kept (w.store.retainsAll_sweep _)
  cases op with
  | setParent child parent =>
      exact lifted _ (.assignParent Store.retainsAll_setParent child parent) rfl
  | adopt parent child => exact lifted _ (.adopt Store.retainsAll_setParent parent child) rfl
  | makeList _ _ | construct _ _ _ | push _ _ | pop _ _ | bind _ _ | unbind _ => cases linking

theorem retainsAll_foldl_apply (σ : Session) {ops : List Operation}
    (linking : ∀ op ∈ ops, op.isLinking) :
    σ.world.store.RetainsAll (ops.foldl apply σ).world.store := by
  induction ops generalizing σ with
  | nil => exact refl_of Store.RetainsAll _
  | cons op ops ih =>
      exact trans_of Store.RetainsAll (σ.retainsAll_apply (linking op (by simp)))
        (ih _ fun op hop => linking op (by simp [hop]))

end Session

namespace Store

/-- Nodes with the same picture are rendered alike: to a text, to a value with the same picture
or with the same fault. Hence a rendering does not change with what the node does not lead to,
nor with any parents. -/
theorem render_of_picture :
    (∀ (s s' : Store) (settings settings' : Settings) (a b : NodeId),
      s.AcyclicBelow (.node a) → s'.AcyclicBelow (.node b) →
      s.picture renderingMembers (.node a) = s'.picture renderingMembers (.node b) →
      settings.SamePicture s s' settings' →
      (s.render settings a).map (s.picture renderingMembers) =
        (s'.render settings' b).map (s'.picture renderingMembers)) ∧
    (∀ (s s' : Store) (settings : Settings) (a : NodeId),
      (∀ v, s.Reachable [.node a] v → s.Retains s' v) →
      s'.typeName settings.directive = s.typeName settings.directive →
      s'.render settings a = s.render settings a) ∧
    ∀ (σ : Session) (ops : List Operation), (∀ op ∈ ops, op.isLinking) →
      ∀ (settings : Settings) (a : NodeId),
        (ops.foldl Session.apply σ).world.store.render settings a =
          σ.world.store.render settings a := by
  refine ⟨fun s s' settings settings' a b acyclic acyclic' same looks => ?_,
    fun s s' settings a => render_eq_of_retains, fun σ ops linking settings a => ?_⟩
  · exact map_picture_eq_of_agrees
      (samePicture_correspondence.render looks.matches ⟨acyclic, acyclic', same⟩)
  · exact (σ.retainsAll_foldl_apply linking).render settings a

/-- A block that has one literal in two places. -/
def shared : Store :=
  ⟨#[.ofShape (.boolean (.bool true)), .ofShape (.block (.list ⟨0⟩))],
    #[[.node ⟨0⟩, .node ⟨0⟩]]⟩

/-- A block with two literals, one of which has a parent. Not everything is in use. -/
def copied : Store :=
  ⟨#[⟨.boolean (.bool true), some ⟨2⟩, []⟩, .ofShape (.boolean (.bool true)),
      .ofShape (.block (.list ⟨1⟩))],
    #[[.text "unused"], [.node ⟨0⟩, .node ⟨1⟩]]⟩

theorem shared_render_eq_copied :
    (shared.render .default ⟨1⟩).map (shared.picture renderingMembers) =
        (copied.render .default ⟨2⟩).map (copied.picture renderingMembers) ∧
      (copied.setItems ⟨0⟩ []).render .default ⟨2⟩ = copied.render .default ⟨2⟩ ∧
      ([.setParent (.node ⟨0⟩) .null, .adopt ⟨1⟩ (.node ⟨0⟩)].foldl Session.apply
        { Session.start with world := { World.empty with store := shared } }).world.store.render
          .default ⟨1⟩ = shared.render .default ⟨1⟩ := by
  obtain ⟨pictures, unreached, linking⟩ := render_of_picture
  refine ⟨?_, ?_, linking _ _ (by decide) _ _⟩
  · exact pictures shared copied .default .default ⟨1⟩ ⟨2⟩
      (acyclicBelow_of_rank rank (by decide) _) (acyclicBelow_of_rank rank (by decide) _) rfl
      ⟨rfl, rfl, rfl⟩
  · refine unreached copied _ .default ⟨2⟩ (fun v reached => ?_) rfl
    have mem : v ∈ [.node ⟨2⟩, .list ⟨1⟩, .node ⟨0⟩, .node ⟨1⟩, .bool true] :=
      Store.mem_of_reachable (by simp) (by decide) reached
    cases v with
    | node id => exact ⟨rfl, fun _ _ => rfl⟩
    | list l =>
        refine items_setItems_of_ne ?_ []
        rintro rfl
        exact absurd mem (by decide)
    | null | bool _ | int _ _ | real _ _ | text _ _ => trivial

/-- Two empty statements. On the second something was set in the place of its rendering. -/
def masked : Store :=
  ⟨#[.ofShape .empty, ⟨.empty, none, [("serialize", .null)]⟩], #[]⟩

theorem not_render_of_fields :
    masked.AcyclicBelow (.node ⟨0⟩) ∧ masked.AcyclicBelow (.node ⟨1⟩) ∧
      masked.picture [] (.node ⟨0⟩) = masked.picture [] (.node ⟨1⟩) ∧
      masked.render .default ⟨0⟩ = .ok (.text ";") ∧
      masked.render .default ⟨1⟩ = .error (.notCallable "NoneType") :=
  ⟨acyclicBelow_of_rank rank (by decide) _, acyclicBelow_of_rank rank (by decide) _, rfl, rfl,
    rfl⟩

end Store
end ScriptGraph
