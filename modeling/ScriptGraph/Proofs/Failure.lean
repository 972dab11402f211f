import ScriptGraph.Proofs.Adoption
import ScriptGraph.Proofs.Confinement
import ScriptGraph.Proofs.Construction

/-!
Constructions that fail. They register nothing and change no list and no field. All they leave
behind are links of children that they had taken in before they failed, to a node that nothing
leads to. A construction that rejects an argument leaves nothing behind at all.
-/

namespace ScriptGraph

namespace Store

/-- Something was added: empty lists, and nodes on which nothing was set. -/
structure Adds (s s' : Store) : Prop where
  size : s.nodes.size ≤ s'.nodes.size
  items (l : ListId) : s'.items l = s.items l
  node {id : NodeId} : id.index < s.nodes.size → s'.node id = s.node id
  override? (id : NodeId) (member : String) :
    (s'.node id).override? member = (s.node id).override? member

instance : IsPreorder Store Adds where
  refl _ := ⟨Nat.le_refl _, fun _ => rfl, fun _ => rfl, fun _ _ => rfl⟩
  trans _ _ _ h k :=
    ⟨Nat.le_trans h.size k.size, fun l => (k.items l).trans (h.items l),
      fun hid => (k.node (Nat.lt_of_lt_of_le hid h.size)).trans (h.node hid),
      fun id member => (k.override? id member).trans (h.override? id member)⟩

theorem adds_addNode (s : Store) (shape : Shape) : s.Adds (s.addNode shape) where
  size := by simp [addNode]
  items _ := rfl
  node {id} hid := by
    refine s.node_addNode_of_ne shape ?_
    rintro rfl
    exact Nat.lt_irrefl _ hid
  override? id member := by
    by_cases new : id = s.nextNode
    · have before : s.node s.nextNode = .ofShape .bare := node_of_size_le (Nat.le_refl _)
      rw [new, node_addNode_nextNode, before]
      rfl
    · rw [s.node_addNode_of_ne shape new]

theorem adds_addList_nil (s : Store) : s.Adds (s.addList []) where
  size := Nat.le_refl _
  items l := by
    by_cases new : l.index = s.lists.size
    · simp [Store.items, addList, Array.getD_eq_getD_getElem?, new]
    · simp [Store.items, addList, Array.getD_eq_getD_getElem?, Array.getElem?_push, new]
  node _ := rfl
  override? _ _ := rfl

end Store

namespace Action

theorem elementsFor_outcome (member : String) (v : Value) (w : World) :
    (∃ found, elementsFor member v w = .ok found w) ∨
      ∃ fault, elementsFor member v w = .error fault w ∧ fault.label ≠ "InvalidArgument" := by
  cases v with
  | node m =>
      cases own : (w.store.node m).override? member with
      | some u =>
          exact .inr ⟨_, bind_of_error (expectOwn_of_some own), w.store.label_refusal _ _⟩
      | none =>
          rw [elementsFor_node own]
          cases w.store.shape m with
          | program strict elements => exact .inl ⟨_, rfl⟩
          | bare | empty | boolean _ | block _ | conditional _ _ _ | caseGroup _ _ | switch _ _
          | declarator _ _ | declaration _ | function _ _ _ =>
              exact .inr ⟨_, rfl, by simp [Fault.label]⟩
  | null | bool _ | int _ _ | real _ _ | text _ _ | list _ =>
      exact .inr ⟨_, rfl, by simp [Fault.label]⟩

theorem adopt_node_outcome (parent child : NodeId) (w : World) :
    adopt parent (.node child) w = .ok () (w.link child (some parent)) ∨
      ∃ fault, adopt parent (.node child) w = .error fault w ∧ fault.label ≠ "InvalidArgument" := by
  cases own : (w.store.node parent).override? "become_parent_of" with
  | some u => exact .inr ⟨_, bind_of_error (expectOwn_of_some own), w.store.label_refusal _ _⟩
  | none =>
      cases free : (w.store.node child).override? "set_parent" with
      | some u =>
          exact .inr ⟨_, (bind_of_ok (expectOwn_of_none own)).trans
            (bind_of_error (expectOwn_of_some free)), w.store.label_refusal _ _⟩
      | none => exact .inl (adopt_node own free)

/-- A push of one node succeeds, or fails with nothing done but the node adopted. Once the node
is appended nothing is left to fail. -/
theorem push_one_outcome (owner : Value) (id : NodeId) (w : World) :
    (∃ count w', push owner [.node id] w = .ok count w') ∨
      ∃ fault w', push owner [.node id] w = .error fault w' ∧ fault.label ≠ "InvalidArgument" ∧
        (w' = w ∨ ∃ m, w' = w.link id (some m)) := by
  rcases elementsFor_outcome "push" owner w with ⟨⟨m, elements⟩, found⟩ | ⟨fault, failed, label⟩
  · rcases adopt_node_outcome m id w with linked | ⟨fault, failed, label⟩
    · cases elements with
      | list l => exact .inl ⟨_, _, (bind_of_ok found).trans (bind_of_ok (bind_of_ok linked))⟩
      | null | bool _ | int _ _ | real _ _ | text _ _ | node _ =>
          refine .inr ⟨_, _, (bind_of_ok found).trans (bind_of_error
            ((bind_of_ok linked).trans (bind_of_error rfl))), ?_, .inr ⟨m, rfl⟩⟩
          exact Store.label_refusal _ _ _
    · exact .inr ⟨fault, w, (bind_of_ok found).trans (bind_of_error (bind_of_error failed)), label,
        .inl rfl⟩
  · exact .inr ⟨fault, w, bind_of_error failed, label, .inl rfl⟩

theorem register_failed {owner : Value} {id : NodeId} {w w' : World} {fault : Fault}
    (h : register owner id w = .error fault w') :
    fault.label ≠ "InvalidArgument" ∧ (w' = w ∨ ∃ m, w' = w.link id (some m)) := by
  unfold register at h
  split at h
  · cases h
  · rcases push_one_outcome owner id w with ⟨count, w₁, done⟩ | ⟨fault', w₁, failed, label, left⟩
    · rw [bind_of_ok done] at h
      cases h
    · rw [bind_of_error failed] at h
      cases h
      exact ⟨label, left⟩

end Action

namespace Store

/-- The same is offered, but for a new node in the place of null. -/
def SameOffers (s : Store) : List (Option Value) → List (Option Value) → Prop :=
  List.Forall₂ fun x y =>
    x = y ∨ y = some .null ∧ ∃ n : NodeId, s.nodes.size ≤ n.index ∧ x = some (.node n)

theorem SameOffers.refl (s : Store) (offers : List (Option Value)) : s.SameOffers offers offers :=
  List.forall₂_same.mpr fun _ _ => .inl rfl

/-- New nodes are adopted, too, but else nothing differs. -/
theorem SameOffers.mem_adoptedFrom_iff {s : Store} {xs ys : List (Option Value)}
    (h : s.SameOffers xs ys) {id : NodeId} (hid : id.index < s.nodes.size) :
    id ∈ s.adoptedFrom xs ↔ id ∈ s.adoptedFrom ys := by
  induction h with
  | nil => rfl
  | cons first _ ih =>
      rw [mem_adoptedFrom_cons, mem_adoptedFrom_cons]
      rcases first with rfl | ⟨rfl, n, new, rfl⟩
      · rw [ih]
      · have free : s.accepts (some (.node n)) = true := by
          simp [accepts, node_of_size_le new, Node.override?, Node.ofShape]
        have other : n ≠ id := fun e => Nat.not_lt_of_le new (e ▸ hid)
        have passed : s.accepts (some .null) = true := rfl
        rw [free, passed]
        simp [other, ih]

end Store

namespace Shape

theorem complete_boolean_outcome (value : Value) (w : World) :
    (boolean value).complete w = .ok (boolean value) w ∨
      ∃ fault, (boolean value).complete w = .error fault w ∧ fault.label = "InvalidArgument" := by
  cases value with
  | bool b => exact .inl rfl
  | null | int _ _ | real _ _ | text _ _ | list _ | node _ => exact .inr ⟨_, rfl, rfl⟩

/-- The condition is checked before a branch is made that is missing. -/
theorem complete_conditional_outcome (condition consequent alternative : Value) (w : World) :
    (∃ fault, (conditional condition consequent alternative).complete w = .error fault w ∧
      fault.label = "InvalidArgument") ∨
    ∃ consequent' w', (conditional condition consequent alternative).complete w =
        .ok (conditional condition consequent' alternative) w' ∧ w.store.Adds w'.store ∧
      (consequent' = consequent ∨ consequent = .null ∧
        ∃ n : NodeId, w.store.nodes.size ≤ n.index ∧ consequent' = .node n) := by
  cases condition with
  | node id =>
      simp only [complete]
      split
      case isTrue absent =>
        exact .inr ⟨_, _, rfl, w.store.adds_addNode _,
          .inr ⟨absent, w.store.nextNode, Nat.le_refl _, rfl⟩⟩
      case isFalse => exact .inr ⟨_, w, rfl, refl_of Store.Adds _, .inl rfl⟩
  | null | bool _ | int _ _ | real _ _ | text _ _ | list _ => exact .inl ⟨_, rfl, rfl⟩

theorem complete_declaration_outcome (declarators : Value) (w : World) :
    ∃ w', (declaration declarators).complete w = .ok (declaration declarators) w' ∧
      w'.store = w.store := by
  cases full : w.store.isTrue declarators with
  | true =>
      refine ⟨w, (Action.bind_of_ok (Action.store_eq w)).trans ?_, rfl⟩
      rw [full]
      rfl
  | false =>
      refine ⟨{ w with journal := w.journal ++
        [⟨.warning, "VariableStatement created without declarators"⟩] }, ?_, rfl⟩
      refine (Action.bind_of_ok (Action.store_eq w)).trans ?_
      rw [full]
      exact (Action.bind_of_ok (Action.record_eq _ _ w)).trans rfl

/-- Completion of a function makes at most an empty list for its parameters and a node for its
body. -/
theorem complete_function_outcome (name params body : Value) (w : World) :
    ∃ name' params' body' w', (function name params body).complete w =
        .ok (function name' params' body') w' ∧ w.store.Adds w'.store ∧
      (body' = body ∨ body = .null ∧
        ∃ n : NodeId, w.store.nodes.size ≤ n.index ∧ body' = .node n) := by
  have filled : ∃ params' w', (if params = .null then .list <$> Action.newList [] else pure params :
        Action Value) w = .ok params' w' ∧ w.store.Adds w'.store := by
    split
    · exact ⟨_, _, rfl, w.store.adds_addList_nil⟩
    · exact ⟨_, w, rfl, refl_of Store.Adds _⟩
  obtain ⟨params', w₁, hparams, adds⟩ := filled
  have embodied : ∃ body' w', (if body = .null then .node <$> Action.newNode (block .null)
        else pure body : Action Value) w₁ = .ok body' w' ∧ w₁.store.Adds w'.store ∧
      (body' = body ∨ body = .null ∧
        ∃ n : NodeId, w.store.nodes.size ≤ n.index ∧ body' = .node n) := by
    split
    case isTrue absent =>
      exact ⟨_, _, rfl, w₁.store.adds_addNode _, .inr ⟨absent, w₁.store.nextNode, adds.size, rfl⟩⟩
    case isFalse => exact ⟨_, w₁, rfl, refl_of Store.Adds _, .inl rfl⟩
  obtain ⟨body', w₂, hbody, adds', same⟩ := embodied
  refine ⟨if name = .null then .text "" else name, params', body', w₂, ?_,
    trans_of Store.Adds adds adds', same⟩
  rw [complete_function]
  exact (Action.bind_of_ok hparams).trans ((Action.bind_of_ok hbody).trans rfl)

end Shape

namespace Draft

theorem listOrNew_outcome (args : List (String × Value)) (name : String) (w : World) :
    ∃ v w', listOrNew args name w = .ok v w' ∧ w.store.Adds w'.store ∧
      (args.lookup name = some v ∨ args.lookup name = none ∧ v = .list w.store.nextList) := by
  unfold listOrNew
  cases args.lookup name with
  | some v => exact ⟨v, w, rfl, refl_of Store.Adds _, .inl rfl⟩
  | none => exact ⟨_, _, rfl, w.store.adds_addList_nil, .inr ⟨rfl, rfl⟩⟩

/-- Before a new node is made, either an argument is rejected and nothing has been done, or the
shape is complete and has the children that the arguments offer. -/
def Prepares (kind : Kind) (args : List (String × Value)) (w : World) (draft : Draft)
    (w₁ : World) : Prop :=
  (∃ fault, draft.shape.complete w₁ = .error fault w ∧ fault.label = "InvalidArgument") ∨
    ∃ shape w₂, draft.shape.complete w₁ = .ok shape w₂ ∧ w.store.Adds w₂.store ∧
      w.store.SameOffers (shape.slots.flatMap w.store.offered)
        ((kind.slots args).flatMap w.store.offered)

theorem ofArguments_prepares (kind : Kind) (args : List (String × Value)) (w : World) :
    ∃ draft w₁, ofArguments kind args w = .ok draft w₁ ∧ Prepares kind args w draft w₁ := by
  have same {draft : Draft} {w' : World} (h : ofArguments kind args w = .ok draft w)
      (done : draft.shape.complete w = .ok draft.shape w') (store : w'.store = w.store)
      (slots : draft.shape.slots = kind.slots args) :
      ∃ draft w₁, ofArguments kind args w = .ok draft w₁ ∧ Prepares kind args w draft w₁ := by
    refine ⟨draft, w, h, .inr ⟨draft.shape, w', done, ?_, ?_⟩⟩
    · rw [store]
      exact refl_of Store.Adds _
    · rw [slots]
      exact .refl _ _
  cases kind with
  | bare | empty | block | caseGroup | switch | declarator => exact same rfl rfl rfl rfl
  | boolean =>
      rcases Shape.complete_boolean_outcome ((args.lookup "value").getD .null) w with done | failed
      · exact same rfl done rfl rfl
      · exact ⟨_, w, rfl, .inl failed⟩
  | program =>
      obtain ⟨elements, w₁, made, adds, found⟩ := listOrNew_outcome args "elements" w
      refine ⟨_, w₁, (Action.bind_of_ok made).trans rfl, .inr ⟨_, w₁, rfl, adds, ?_⟩⟩
      rcases found with found | ⟨missing, rfl⟩
      · simp only [Shape.slots, Kind.slots, found]
        exact .refl _ _
      · -- The list that is made is empty, so it offers as little as no argument does.
        have none : w.store.items w.store.nextList = [] := by
          simp [Store.items, Store.nextList, Array.getD_eq_getD_getElem?]
        simp [Shape.slots, Kind.slots, missing, Store.offered, Store.iterate, none, Except.toOption,
          Store.SameOffers]
  | conditional =>
      have done := Shape.complete_conditional_outcome ((args.lookup "condition").getD .null)
        ((args.lookup "then_statement").getD .null) ((args.lookup "else_statement").getD .null) w
      rcases done with failed | ⟨consequent', w₁, done, adds, branch⟩
      · exact ⟨_, w, rfl, .inl failed⟩
      · refine ⟨_, w, rfl, .inr ⟨_, w₁, done, adds, ?_⟩⟩
        refine .cons (.inl rfl) (.cons ?_ (.cons (.inl rfl) .nil))
        rcases branch with rfl | ⟨absent, n, new, rfl⟩
        · exact .inl rfl
        · exact .inr ⟨congrArg some absent, n, new, rfl⟩
  | declaration =>
      obtain ⟨w₁, done, store⟩ :=
        Shape.complete_declaration_outcome ((args.lookup "declarators").getD .null) w
      exact same rfl done store rfl
  | function =>
      obtain ⟨params, w₁, made, adds, -⟩ := listOrNew_outcome args "params" w
      have done := Shape.complete_function_outcome ((args.lookup "name").getD (.text "")) params
        ((args.lookup "body").getD .null) w₁
      obtain ⟨name', params', body', w₂, done, adds', body⟩ := done
      refine ⟨_, w₁, (Action.bind_of_ok made).trans rfl,
        .inr ⟨_, w₂, done, trans_of Store.Adds adds adds', ?_⟩⟩
      refine .cons ?_ .nil
      rcases body with rfl | ⟨absent, n, new, rfl⟩
      · exact .inl rfl
      · exact .inr ⟨congrArg some absent, n, Nat.le_trans adds.size new, rfl⟩

end Draft

/-- The world once a node of a complete shape has been made and has adopted what it can. -/
def World.assembled (w : World) (shape : Shape) : World :=
  let made : World := { w with store := w.store.addNode shape }
  made.adopting w.store.nextNode (made.store.adoptedFrom (shape.slots.flatMap made.store.offered))

namespace Action
variable {w w' : World} {fault : Fault} {kind : Kind} {args : Arguments}

/-- Beyond completion a node is made and adopts what it can, up to the first value that cannot be
adopted. -/
theorem assemble_outcome {draft shape : Shape} {w₁ w₂ : World}
    (completed : draft.complete w₁ = .ok shape w₂) :
    if (shape.slots.flatMap (w₂.store.addNode shape).offered).all
        (w₂.store.addNode shape).accepts then
      assemble draft w₁ = .ok w₂.store.nextNode (w₂.assembled shape)
    else ∃ fault, assemble draft w₁ = .error fault (w₂.assembled shape) ∧
      fault.label ≠ "InvalidArgument" := by
  have own :
      ((w₂.store.addNode shape).node w₂.store.nextNode).override? "become_parent_of" = none := by
    rw [Store.node_addNode_nextNode]
    rfl
  have taken := adoptSlots_takes (w := { w₂ with store := w₂.store.addNode shape }) own shape.slots
  have made : assemble draft w₁ = (do
      adoptSlots w₂.store.nextNode shape.slots
      return w₂.store.nextNode : Action NodeId) { w₂ with store := w₂.store.addNode shape } :=
    (bind_of_ok completed).trans (bind_of_ok (newNode_eq shape w₂))
  unfold Takes at taken
  split at taken
  case isTrue accepted =>
    rw [if_pos accepted]
    exact made.trans (bind_of_ok taken)
  case isFalse refused =>
    obtain ⟨fault, failed, label⟩ := taken
    rw [if_neg refused]
    exact ⟨fault, made.trans (bind_of_error failed), label⟩

/-- If all could be adopted, the registration has failed. At most the new node has got a parent
itself. -/
theorem build_failed {draft : Draft} {shape : Shape} {w₁ w₂ : World}
    (completed : draft.shape.complete w₁ = .ok shape w₂)
    (h : build draft w₁ = .error fault w') :
    fault.label ≠ "InvalidArgument" ∧ (w' = w₂.assembled shape ∨
      ∃ m, w' = (w₂.assembled shape).link w₂.store.nextNode (some m)) := by
  have outcome := assemble_outcome completed
  split at outcome
  · rw [build, bind_of_ok outcome] at h
    rcases error_of_bind h with failed | ⟨_, _, _, done⟩
    · exact register_failed failed
    · cases done
  · obtain ⟨fault', failed, label⟩ := outcome
    rw [build, bind_of_error failed] at h
    cases h
    exact ⟨label, .inl rfl⟩

end Action

/-- All that is left of a construction: lists and nodes are as before, and some nodes have been
given a parent that is new. -/
structure World.Leaves (w w' : World) (new : NodeId) (adopted : List NodeId) : Prop where
  isNew : w.store.nodes.size ≤ new.index
  items (l : ListId) : w'.store.items l = w.store.items l
  node {id : NodeId} : id.index < w.store.nodes.size → w'.store.node id =
    if id ∈ adopted then (w.store.node id).setParent (some new) else w.store.node id

theorem World.assembled_leaves {w w₂ : World} {shape : Shape} {offers : List (Option Value)}
    (adds : w.store.Adds w₂.store)
    (same : w.store.SameOffers (shape.slots.flatMap w.store.offered) offers) :
    w.Leaves (w₂.assembled shape) w₂.store.nextNode (w.store.adoptedFrom offers) := by
  have added := trans_of Store.Adds adds (w₂.store.adds_addNode shape)
  have taken : (w₂.store.addNode shape).adoptedFrom
      (shape.slots.flatMap (w₂.store.addNode shape).offered) =
      w.store.adoptedFrom (shape.slots.flatMap w.store.offered) := by
    rw [Store.offered_congr added.items, Store.adoptedFrom_congr (Store.accepts_congr fun id =>
      added.override? id "set_parent")]
  refine ⟨adds.size, fun l => ?_, fun {id} hid => ?_⟩
  · rw [Store.items, assembled, lists_adopting]
    exact added.items l
  · rw [assembled, node_adopting (Nat.lt_of_lt_of_le hid added.size)]
    simp only [taken, same.mem_adoptedFrom_iff hid, added.node hid]

namespace World.Leaves
variable {w w' : World} {new : NodeId} {adopted : List NodeId} {id : NodeId}

theorem refl (w : World) : w.Leaves w w.store.nextNode [] :=
  ⟨Nat.le_refl _, fun _ => rfl, fun _ => rfl⟩

theorem shape (h : w.Leaves w' new adopted) (hid : id.index < w.store.nodes.size) :
    w'.store.shape id = w.store.shape id := by
  rw [Store.shape, h.node hid]
  split <;> rfl

/-- The new node may get a parent itself. -/
theorem link (h : w.Leaves w' new adopted) (parent : Option NodeId) :
    w.Leaves (w'.link new parent) new adopted := by
  refine ⟨h.isNew, h.items, fun {id} hid => ?_⟩
  have other : id ≠ new := by
    rintro rfl
    exact Nat.not_lt_of_le h.isNew hid
  rw [store_link, Store.node_setParent_of_ne _ _ other]
  exact h.node hid

/-- Nothing comes to lead to the new node. -/
theorem not_reachable (h : w.Leaves w' new adopted) {roots : List Value}
    (has : ∀ v, w.store.Reachable roots v → v.isHandle → w.store.Has v) :
    ¬ w'.store.Reachable roots (.node new) := by
  have before {v : Value} (reached : w'.store.Reachable roots v) : w.store.Reachable roots v := by
    induction reached with
    | root mem => exact .root mem
    | step _ mem ih =>
        rename_i u v _
        refine .step ih ?_
        have inStore := has u ih (Store.isHandle_of_mem_successors mem)
        cases u with
        | node id =>
            rw [Store.successors, h.node inStore] at mem
            split at mem
            · exact Node.mem_held_setParent mem
            · exact mem
        | list l =>
            rw [Store.successors, h.items] at mem
            exact mem
        | null | bool _ | int _ _ | real _ _ | text _ _ => cases mem
  intro reached
  exact Nat.not_lt_of_le h.isNew (has _ (before reached) rfl)

/-- So the nodes that it had adopted read as having no parent. -/
theorem readField_parent (h : w.Leaves w' new adopted) {roots : List Value}
    (has : ∀ v, w.store.Reachable roots v → v.isHandle → w.store.Has v)
    (hid : id.index < w.store.nodes.size) (mem : id ∈ adopted) :
    Action.readField roots (.node id) "parent" w' = .ok .null w' := by
  have node := (h.node hid).trans (if_pos mem)
  have own : (w'.store.node id).override? Node.linkName = none := by
    rw [node, Node.override?_setParent_linkName]
  have lost : w'.store.parentAmong roots id = none := by
    rw [Option.eq_none_iff_forall_ne_some]
    intro p found
    obtain ⟨parent, reached⟩ := Store.parentAmong_eq_some_iff.mp found
    rw [node] at parent
    cases parent
    exact h.not_reachable has reached
  rw [Action.readField_parent own, lost]
  rfl

end World.Leaves

namespace Action
variable {w w' : World} {fault : Fault} {kind : Kind} {args : Arguments}

theorem construct_leaves (h : construct kind args w = .error fault w') :
    (fault.label = "InvalidArgument" → w' = w) ∧ ∃ new, w.Leaves w' new
      (if fault.label = "InvalidArgument" then [] else w.store.adopted kind args) := by
  unfold construct at h
  cases fits : args.assign kind.signature with
  | error fault' =>
      rw [fits] at h
      cases h
      refine ⟨fun _ => rfl, w.store.nextNode, ?_⟩
      rw [Store.adopted, fits, ite_self]
      exact .refl w
  | ok assigned =>
      rw [fits] at h
      obtain ⟨draft, w₁, drafted, prepared⟩ := Draft.ofArguments_prepares kind assigned w
      have built : build draft w₁ = .error fault w' := (bind_of_ok drafted).symm.trans h
      rcases prepared with ⟨fault', rejected, label⟩ | ⟨shape, w₂, completed, adds, same⟩
      · have stopped : assemble draft.shape w₁ = .error fault' w := bind_of_error rejected
        rw [build, bind_of_error stopped] at built
        cases built
        refine ⟨fun _ => rfl, w.store.nextNode, ?_⟩
        rw [if_pos label]
        exact .refl w
      · obtain ⟨label, left⟩ := build_failed completed built
        have leaves := World.assembled_leaves adds same
        refine ⟨fun e => absurd e label, w₂.store.nextNode, ?_⟩
        rw [if_neg label, Store.adopted, fits]
        rcases left with rfl | ⟨m, rfl⟩
        · exact leaves
        · exact leaves.link _

/-- A construction that fails registers nothing and changes no structure. The nodes that it has
adopted until then are left with a parent that is lost. If it rejects an argument, it has done
nothing at all. -/
theorem construct_failed (h : construct kind args w = .error fault w') :
    let adopted := if fault.label = "InvalidArgument" then [] else w.store.adopted kind args
    (∀ l : ListId, l.index < w.store.lists.size → w'.store.items l = w.store.items l) ∧
    (∀ id : NodeId, id.index < w.store.nodes.size → w'.store.shape id = w.store.shape id) ∧
    (∃ new : NodeId, w.store.nodes.size ≤ new.index ∧
      ∀ id : NodeId, id.index < w.store.nodes.size → w'.store.node id =
        if id ∈ adopted then (w.store.node id).setParent (some new) else w.store.node id) ∧
    (∀ roots, (∀ v, w.store.Reachable roots v → v.isHandle → w.store.Has v) →
      ∀ id ∈ adopted, id.index < w.store.nodes.size →
        readField roots (.node id) "parent" w' = .ok .null w') ∧
    (fault.label = "InvalidArgument" → w' = w) := by
  obtain ⟨same, new, leaves⟩ := construct_leaves h
  exact ⟨fun l _ => leaves.items l, fun _ => leaves.shape,
    ⟨new, leaves.isNew, fun _ => leaves.node⟩,
    fun _ has _ mem hid => leaves.readField_parent has hid mem, same⟩

end Action

namespace World

/-- A literal and an empty statement. -/
def parts : World :=
  { World.empty with
    store := ⟨#[.ofShape (.boolean (.bool true)), .ofShape .empty], #[]⟩ }

/-- The alternative is a text and cannot be adopted. The condition and the consequent have been. -/
theorem parts_construct_failed : ∃ w',
    Action.construct .conditional ⟨[.node ⟨0⟩, .node ⟨1⟩, .text "x"], []⟩ parts =
      .error (.lacks "str" "set_parent") w' ∧
    (w'.store.node ⟨1⟩).parent = some ⟨2⟩ ∧
    Action.readField [.node ⟨1⟩] (.node ⟨1⟩) "parent" w' = .ok .null w' := by
  obtain ⟨w', failed, linked⟩ : ∃ w',
      Action.construct .conditional ⟨[.node ⟨0⟩, .node ⟨1⟩, .text "x"], []⟩ parts =
        .error (.lacks "str" "set_parent") w' ∧ (w'.store.node ⟨1⟩).parent = some ⟨2⟩ :=
    ⟨_, rfl, rfl⟩
  refine ⟨w', failed, linked, ?_⟩
  obtain ⟨-, -, -, reads, -⟩ := Action.construct_failed failed
  refine reads [.node ⟨1⟩] (fun v reached _ => ?_) ⟨1⟩ (by decide) (by decide)
  have mem : v ∈ [Value.node ⟨1⟩] := Store.mem_of_reachable (by simp) (by decide) reached
  obtain rfl := List.mem_singleton.mp mem
  exact (by decide : 1 < 2)

end World
end ScriptGraph
