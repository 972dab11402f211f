import Mathlib.Data.List.TakeWhile
import ScriptGraph.Proofs.Acquaintance
import ScriptGraph.Proofs.Calls
import ScriptGraph.Proofs.Failure
import ScriptGraph.Proofs.Stack

/-!
Constructions that succeed. The new node becomes the parent of the children it was given, and of
the one it makes itself where one is missing; the program it is registered in becomes its own
parent. Nothing else changes but the elements of that program. The nodes that it has adopted are
those that its rendering calls on.
-/

namespace ScriptGraph

namespace Kind

/-- The child that a construction makes where none is given. -/
def spare? (kind : Kind) (args : List (String × Value)) : Option Shape :=
  match kind with
  | conditional => if argument args "then_statement" = .null then some .empty else none
  | function => if argument args "body" = .null then some (.block .null) else none
  | bare | program | empty | boolean | block | caseGroup | switch | declarator | declaration => none

/-- The program that a node is to be registered in, or null. -/
def owner (kind : Kind) (args : List (String × Value)) : Value :=
  if kind.isRegistrable then argument args "module" else .null

end Kind

namespace Store
variable {s : Store} {kind : Kind} {args : List (String × Value)} {c : NodeId}

def nodesOf (offers : List (Option Value)) : List NodeId :=
  offers.filterMap fun
    | some (.node n) => some n
    | _ => none

/-- The nodes among the children that a construction is given. -/
def children (s : Store) (kind : Kind) (args : List (String × Value)) : List NodeId :=
  nodesOf ((kind.slots args).flatMap s.offered)

/-- The nodes that a construction adopts: the children it is given and the one that it makes,
which is the next node of the store. -/
def brood (s : Store) (kind : Kind) (args : List (String × Value)) : List NodeId :=
  s.children kind args ++ (kind.spare? args).toList.map fun _ => s.nextNode

/-- The list that a value keeps its elements in, if it is a program. -/
def elementsList? (s : Store) : Value → Option ListId
  | .node m =>
    match s.shape m with
    | .program _ (.list l) => some l
    | _ => none
  | .null | .bool _ | .int .. | .real .. | .text .. | .list _ => none

theorem elementsList?_congr {s' : Store} {v : Value}
    (h : ∀ m, v = .node m → s'.shape m = s.shape m) : s'.elementsList? v = s.elementsList? v := by
  cases v with
  | node m => rw [elementsList?, elementsList?, h m rfl]
  | null | bool _ | int _ _ | real _ _ | text _ _ | list _ => rfl

theorem mem_values_of_elementsList? {m : NodeId} {l : ListId}
    (h : s.elementsList? (.node m) = some l) : .list l ∈ (s.shape m).values := by
  simp only [elementsList?] at h
  split at h
  case h_1 strict _ program =>
    cases h
    rw [program]
    simp [Shape.values, Shape.fields]
  case h_2 => cases h

theorem mem_nodesOf {offers : List (Option Value)} :
    c ∈ nodesOf offers ↔ some (.node c) ∈ offers := by
  rw [nodesOf, List.mem_filterMap]
  constructor
  · rintro ⟨offer, mem, found⟩
    split at found
    · cases found
      exact mem
    · cases found
  · intro mem
    exact ⟨_, mem, rfl⟩

theorem mem_brood : c ∈ s.brood kind args ↔
    c ∈ s.children kind args ∨ (kind.spare? args).isSome ∧ c = s.nextNode := by
  rw [brood, List.mem_append]
  cases kind.spare? args with
  | none => simp
  | some shape => simp

theorem adoptedFrom_of_all {offers : List (Option Value)} (h : offers.all s.accepts) :
    s.adoptedFrom offers = nodesOf offers := by
  rw [adoptedFrom, List.takeWhile_eq_self_iff.mpr (by simpa using h)]
  rfl

end Store

namespace Draft

/-- What a complete shape owes to the arguments. -/
structure Fulfils (kind : Kind) (args : List (String × Value)) (w : World) (shape : Shape)
    (w' : World) : Prop where
  nodes : w'.store.nodes =
    (kind.spare? args).elim w.store.nodes fun made => w.store.nodes.push (.ofShape made)
  lists : w.store.lists.size ≤ w'.store.lists.size
  offers (c : NodeId) :
    some (.node c) ∈ shape.slots.flatMap w.store.offered ↔ c ∈ w.store.brood kind args

variable {kind : Kind} {args : List (String × Value)} {w w₁ w' : World} {draft : Draft}
variable {shape : Shape}

/-- A shape that has its children from the arguments, where none is missing. -/
theorem Fulfils.same (spare : kind.spare? args = none) (nodes : w'.store.nodes = w.store.nodes)
    (lists : w.store.lists.size ≤ w'.store.lists.size) (slots : shape.slots = kind.slots args) :
    Fulfils kind args w shape w' := by
  refine ⟨by rw [spare]; exact nodes, lists, fun c => ?_⟩
  rw [Store.mem_brood, spare, slots, Store.children, Store.mem_nodesOf]
  simp

theorem listOrNew_done {name : String} {v : Value} (h : listOrNew args name w = .ok v w₁) :
    w₁.store.nodes = w.store.nodes ∧ w.store.lists.size ≤ w₁.store.lists.size ∧
      (args.lookup name = some v ∨ args.lookup name = none ∧ v = .list w.store.nextList) := by
  unfold listOrNew at h
  cases found : args.lookup name with
  | some u =>
      rw [found] at h
      cases h
      exact ⟨rfl, Nat.le_refl _, .inl rfl⟩
  | none =>
      rw [found] at h
      cases h
      exact ⟨rfl, (w.store.grows_addList []).2, .inr ⟨rfl, rfl⟩⟩

theorem offered_nextList (s : Store) : s.offered (.every (.list s.nextList)) = [] := by
  simp [Store.offered, Store.iterate, Store.items, Store.nextList, Array.getD_eq_getD_getElem?,
    Except.toOption]

theorem fulfils_program (drafted : ofArguments .program args w = .ok draft w₁)
    (completed : draft.shape.complete w₁ = .ok shape w') : Fulfils .program args w shape w' := by
  obtain ⟨elements, w₂, made, rest⟩ := Action.ok_of_bind drafted
  cases rest
  cases completed
  obtain ⟨nodes, lists, found | ⟨missing, rfl⟩⟩ := listOrNew_done made
  · exact .same rfl nodes lists (by simp [Shape.slots, Kind.slots, found])
  · refine ⟨nodes, lists, fun c => ?_⟩
    simp [Store.mem_brood, Store.children, Store.mem_nodesOf, Shape.slots, Kind.slots, Kind.spare?,
      missing, offered_nextList]

theorem fulfils_conditional (drafted : ofArguments .conditional args w = .ok draft w₁)
    (completed : draft.shape.complete w₁ = .ok shape w') :
    Fulfils .conditional args w shape w' := by
  cases drafted
  cases condition : argument args "condition" with
  | node id =>
      simp only [Shape.complete, condition] at completed
      split at completed
      case isTrue absent =>
        cases completed
        refine ⟨by simp [Kind.spare?, absent, Store.addNode], Nat.le_refl _, fun c => ?_⟩
        simp [Store.mem_brood, Store.children, Store.mem_nodesOf, Shape.slots, Kind.slots,
          Kind.spare?, Store.offered, condition, absent]
        tauto
      case isFalse present =>
        cases completed
        refine .same (by simp [Kind.spare?, present]) rfl (Nat.le_refl _) ?_
        simp [Shape.slots, Kind.slots, condition]
  | null | bool _ | int _ _ | real _ _ | text _ _ | list _ =>
      simp only [Shape.complete, condition] at completed
      cases completed

theorem fulfils_function (drafted : ofArguments .function args w = .ok draft w₁)
    (completed : draft.shape.complete w₁ = .ok shape w') : Fulfils .function args w shape w' := by
  obtain ⟨params, w₂, made, rest⟩ := Action.ok_of_bind drafted
  cases rest
  obtain ⟨nodes, lists, -⟩ := listOrNew_done made
  rw [Shape.complete_function] at completed
  obtain ⟨params', w₃, filled, completed⟩ := Action.ok_of_bind completed
  obtain ⟨body, w₄, embodied, completed⟩ := Action.ok_of_bind completed
  cases completed
  have kept : w₃.store.nodes = w.store.nodes ∧ w.store.lists.size ≤ w₃.store.lists.size := by
    split at filled
    · cases filled
      exact ⟨nodes, Nat.le_trans lists (Store.grows_addList _ []).2⟩
    · cases filled
      exact ⟨nodes, lists⟩
  split at embodied
  case isTrue absent =>
    cases embodied
    refine ⟨by simp [Kind.spare?, absent, Store.addNode, kept.1], kept.2, fun c => ?_⟩
    have next : w₃.store.nextNode = w.store.nextNode := by simp [Store.nextNode, kept.1]
    simp [Store.mem_brood, Store.children, Store.mem_nodesOf, Shape.slots, Kind.slots, Kind.spare?,
      Store.offered, absent, next]
  case isFalse present =>
    cases embodied
    exact .same (by simp [Kind.spare?, present]) kept.1 kept.2 rfl

theorem fulfils (drafted : ofArguments kind args w = .ok draft w₁)
    (completed : draft.shape.complete w₁ = .ok shape w') : Fulfils kind args w shape w' := by
  cases kind with
  | bare | empty | block | caseGroup | switch | declarator =>
      cases drafted
      cases completed
      exact .same rfl rfl (Nat.le_refl _) rfl
  | boolean =>
      cases drafted
      rcases Shape.complete_boolean_outcome ((args.lookup "value").getD .null) w with
        done | ⟨fault, failed, -⟩
      · cases done.symm.trans completed
        exact .same rfl rfl (Nat.le_refl _) rfl
      · cases failed.symm.trans completed
  | declaration =>
      cases drafted
      obtain ⟨w₂, done, store⟩ :=
        Shape.complete_declaration_outcome ((args.lookup "declarators").getD .null) w
      cases done.symm.trans completed
      exact .same rfl (by rw [store]) (by rw [store]) rfl
  | program => exact fulfils_program drafted completed
  | conditional => exact fulfils_conditional drafted completed
  | function => exact fulfils_function drafted completed

theorem owner_of_ofArguments (drafted : ofArguments kind args w = .ok draft w₁) :
    draft.owner = kind.owner args := by
  cases kind with
  | bare | empty | boolean | block | conditional | caseGroup | switch | declarator | declaration =>
      cases drafted
      rfl
  | program | function =>
      obtain ⟨_, _, _, rest⟩ := Action.ok_of_bind drafted
      cases rest
      rfl

end Draft

namespace Action
variable {w w' : World} {id n : NodeId} {owner : Value}

theorem elementsFor_done {member : String} {v : Value} {found : NodeId × Value}
    (h : elementsFor member v w = .ok found w') :
    w' = w ∧ v = .node found.1 ∧ ∃ strict, w.store.shape found.1 = .program strict found.2 := by
  have known := elementsFor_ensures member v w
  rw [Ensures, h] at known
  obtain ⟨-, target, strict, shape⟩ := known
  rcases elementsFor_outcome member v w with ⟨found', done⟩ | ⟨fault, failed, -⟩
  · cases done.symm.trans h
    exact ⟨rfl, target, strict, shape⟩
  · cases failed.symm.trans h

/-- A node that was pushed has been taken in at the end of the elements of a program. -/
theorem push_one_done {count : Nat} (h : push owner [.node id] w = .ok count w') :
    ∃ m strict l, owner = .node m ∧ w.store.shape m = .program strict (.list l) ∧
      w'.store = (w.take m l id).store := by
  unfold push at h
  obtain ⟨⟨m, elements⟩, w₁, found, rest⟩ := ok_of_bind h
  obtain ⟨rfl, target, strict, shape⟩ := elementsFor_done found
  obtain ⟨_, w₂, pushed, counted⟩ := ok_of_bind rest
  obtain ⟨_, w₃, adopted, pushed⟩ := ok_of_bind pushed
  obtain ⟨_, w₄, appended, pushed⟩ := ok_of_bind pushed
  cases pushed
  rcases adopt_node_outcome m id w₁ with linked | ⟨fault, failed, -⟩
  · cases linked.symm.trans adopted
    cases elements with
    | list l =>
        cases appended
        cases counted
        exact ⟨m, strict, l, target, shape, rfl⟩
    | null | bool _ | int _ _ | real _ _ | text _ _ | node _ => cases appended
  · cases failed.symm.trans adopted

theorem register_done (h : register owner id w = .ok () w') :
    owner = .null ∧ w' = w ∨ ∃ m strict l, owner = .node m ∧
      w.store.shape m = .program strict (.list l) ∧ w'.store = (w.take m l id).store := by
  unfold register at h
  split at h
  case isTrue absent =>
    cases h
    exact .inl ⟨absent, rfl⟩
  case isFalse =>
    obtain ⟨count, w₁, pushed, h⟩ := ok_of_bind h
    cases h
    exact .inr (push_one_done pushed)

theorem build_done {draft : Draft} {shape : Shape} {w₁ w₂ : World}
    (completed : draft.shape.complete w₁ = .ok shape w₂) (h : build draft w₁ = .ok n w') :
    n = w₂.store.nextNode ∧
      (shape.slots.flatMap (w₂.store.addNode shape).offered).all (w₂.store.addNode shape).accepts ∧
      register draft.owner n (w₂.assembled shape) = .ok () w' := by
  have outcome := assemble_outcome completed
  split at outcome
  case isTrue accepted =>
    rw [build, bind_of_ok outcome] at h
    obtain ⟨_, w₃, registered, h⟩ := ok_of_bind h
    cases h
    exact ⟨rfl, accepted, registered⟩
  case isFalse =>
    obtain ⟨fault, failed, -⟩ := outcome
    rw [build, bind_of_error failed] at h
    cases h

/-- A construction that succeeds has completed a shape, adopted all that was offered and
registered the new node. -/
theorem construct_done {kind : Kind} {args : Arguments} (h : construct kind args w = .ok n w') :
    ∃ assigned shape w₂, args.assign kind.signature = .ok assigned ∧
      Draft.Fulfils kind assigned w shape w₂ ∧ w.store.Adds w₂.store ∧ n = w₂.store.nextNode ∧
      (shape.slots.flatMap (w₂.store.addNode shape).offered).all (w₂.store.addNode shape).accepts ∧
      register (kind.owner assigned) n (w₂.assembled shape) = .ok () w' := by
  unfold construct at h
  cases fits : args.assign kind.signature with
  | error fault =>
      rw [fits] at h
      cases h
  | ok assigned =>
      rw [fits] at h
      obtain ⟨draft, w₁, drafted, prepared⟩ := Draft.ofArguments_prepares kind assigned w
      have built : build draft w₁ = .ok n w' := (bind_of_ok drafted).symm.trans h
      rcases prepared with ⟨fault, rejected, -⟩ | ⟨shape, w₂, completed, adds, -⟩
      · have stopped : assemble draft.shape w₁ = .error fault w := bind_of_error rejected
        rw [build, bind_of_error stopped] at built
        cases built
      · obtain ⟨new, accepted, registered⟩ := build_done completed built
        rw [Draft.owner_of_ofArguments drafted] at registered
        exact ⟨assigned, shape, w₂, rfl, Draft.fulfils drafted completed, adds, new, accepted,
          registered⟩

end Action

theorem Kind.mem_of_owner {kind : Kind} {args : List (String × Value)} {m : NodeId}
    (h : kind.owner args = .node m) : .node m ∈ args.map Prod.snd := by
  unfold owner at h
  split at h
  · rw [← h]
    refine Draft.mem_of_getD_lookup rfl ?_
    change (argument args "module").isHandle
    rw [h]
    rfl
  · cases h

/-- All slots of a construction are filled from its arguments. -/
theorem Kind.mem_of_mem_slots {kind : Kind} {args : List (String × Value)} {slot : Slot}
    (h : slot ∈ kind.slots args) (handle : slot.value.isHandle) :
    slot.value ∈ args.map Prod.snd := by
  have arg (name : String) (handle : (argument args name).isHandle) :
      argument args name ∈ args.map Prod.snd := Draft.mem_of_getD_lookup rfl handle
  have one (name : String) (e : slot = .one (argument args name)) :
      slot.value ∈ args.map Prod.snd := by
    subst e
    exact arg name handle
  have every (name : String) (e : slot = .every (argument args name)) :
      slot.value ∈ args.map Prod.snd := by
    subst e
    exact arg name handle
  have body (name : String) (mem : slot ∈ if argument args name = .null then []
      else [Slot.every (argument args name)]) : slot.value ∈ args.map Prod.snd := by
    split at mem
    · cases mem
    · exact every name (List.mem_singleton.mp mem)
  cases kind with
  | bare | empty | boolean => cases h
  | program =>
      obtain ⟨v, found, rfl⟩ := by simpa [slots] using h
      exact List.mem_map_of_mem (mem_of_lookup found)
  | block => exact body "statements" h
  | conditional =>
      simp only [slots, List.mem_cons, List.not_mem_nil, or_false] at h
      rcases h with h | h | h
      · exact one "condition" h
      · exact one "then_statement" h
      · exact one "else_statement" h
  | caseGroup =>
      rcases List.mem_cons.mp h with h | h
      · subst h
        exact arg "labels" handle
      · exact every "statements" (List.mem_singleton.mp h)
  | switch =>
      rcases List.mem_cons.mp h with h | h
      · exact one "discriminant" h
      · exact body "members" h
  | declarator => exact one "initializer" (List.mem_singleton.mp h)
  | declaration => exact every "declarators" (List.mem_singleton.mp h)
  | function => exact one "body" (List.mem_singleton.mp h)

/-- Children are arguments or items of arguments. -/
theorem Store.reachable_of_mem_children {s : Store} {kind : Kind} {args : List (String × Value)}
    {c : NodeId} (h : c ∈ s.children kind args) :
    s.Reachable (args.map Prod.snd) (.node c) := by
  obtain ⟨slot, mem, offer⟩ := List.mem_flatMap.mp (mem_nodesOf.mp h)
  have listed {v : Value} (handle : v.isHandle → v ∈ args.map Prod.snd) {us : List Value}
      (found : s.iterate v = .ok us) (hc : .node c ∈ us) :
      s.Reachable (args.map Prod.snd) (.node c) := by
    have item := mem_contents_of_iterate found hc
    cases v with
    | list l => exact .step (.root (handle rfl)) item
    | null | bool _ | int _ _ | real _ _ | text _ _ | node _ => cases item
  cases slot with
  | one v =>
      obtain rfl : .node c = v := by simpa [offered] using offer
      exact .root (Kind.mem_of_mem_slots mem rfl)
  | every v | nodesAmong v =>
      cases found : s.iterate v with
      | error fault => simp [offered, found, Except.toOption] at offer
      | ok us =>
          refine listed (Kind.mem_of_mem_slots mem) found ?_
          simpa [offered, found, Except.toOption] using offer

namespace World

/-- A node is pushed into its program, if there is one. -/
structure Enters (w w' : World) (owner : Value) (id : NodeId) : Prop where
  size : w'.store.nodes.size = w.store.nodes.size
  others {other : NodeId} : other ≠ id → w'.store.node other = w.store.node other
  unowned : owner = .null → w'.store.node id = w.store.node id
  owned {m : NodeId} : owner = .node m → w'.store.node id = (w.store.node id).setParent (some m)
  target : owner = .null ∨ ∃ m l, owner = .node m ∧ w.store.elementsList? (.node m) = some l
  items {l : ListId} : l.index < w.store.lists.size → w'.store.items l =
    if w.store.elementsList? owner = some l then w.store.items l ++ [.node id] else w.store.items l

theorem enters_of_register {w w' : World} {owner : Value} {id : NodeId}
    (h : Action.register owner id w = .ok () w') (inStore : id.index < w.store.nodes.size) :
    w.Enters w' owner id := by
  rcases Action.register_done h with ⟨rfl, rfl⟩ | ⟨m, strict, l, rfl, program, taken⟩
  · exact ⟨rfl, fun _ => rfl, fun _ => rfl, nofun, .inl rfl, fun _ => rfl⟩
  · have listed : w.store.elementsList? (.node m) = some l := by
      simp only [Store.elementsList?, program]
    have spared := w.take_spares m l id
    have node (other : NodeId) :
        w'.store.node other = (w.store.setParent id (some m)).node other := by
      rw [taken]
      rfl
    refine ⟨by rw [taken, spared.nodes], fun {other} apart => ?_, nofun, fun {m'} same => ?_,
      .inr ⟨m, l, rfl, listed⟩, fun {k} hk => ?_⟩
    · rw [node, Store.node_setParent_of_ne _ _ apart]
    · cases same
      rw [node, Store.node_setParent_self _ _ inStore]
    · rw [taken, listed]
      by_cases same : k = l
      · subst same
        rw [if_pos rfl, items_take hk]
      · rw [if_neg fun e => same (Option.some.inj e).symm]
        exact spared.retains (.list k) (by simpa using same)

end World

section
variable {w w₂ : World} {kind : Kind} {args : List (String × Value)} {shape : Shape} {id : NodeId}

/-- The child that is made for a missing one is the next node. -/
theorem Draft.Fulfils.spare (h : Draft.Fulfils kind args w shape w₂) {made : Shape}
    (spare : kind.spare? args = some made) :
    w₂.store.node w.store.nextNode = .ofShape made ∧
      w₂.store.nodes.size = w.store.nodes.size + 1 := by
  have nodes : w₂.store.nodes = w.store.nodes.push (.ofShape made) := by
    rw [h.nodes, spare]
    rfl
  constructor
  · simp [Store.node, Store.nextNode, nodes, Array.getD_eq_getD_getElem?]
  · simp [nodes]

theorem Draft.Fulfils.size (h : Draft.Fulfils kind args w shape w₂)
    (spare : kind.spare? args = none) : w₂.store.nodes.size = w.store.nodes.size := by
  rw [h.nodes, spare]
  rfl

theorem Draft.Fulfils.lt_of_mem_brood (h : Draft.Fulfils kind args w shape w₂)
    (adds : w.store.Adds w₂.store)
    (inStore : ∀ c ∈ w.store.children kind args, c.index < w.store.nodes.size)
    (mem : id ∈ w.store.brood kind args) : id.index < w₂.store.nodes.size := by
  rcases Store.mem_brood.mp mem with given | ⟨isSome, rfl⟩
  · exact Nat.lt_of_lt_of_le (inStore id given) adds.size
  · obtain ⟨made, spare⟩ := Option.isSome_iff_exists.mp isSome
    rw [(h.spare spare).2]
    exact Nat.lt_succ_self _

/-- Nothing is made but what is adopted. -/
theorem Draft.Fulfils.node_of_not_mem (h : Draft.Fulfils kind args w shape w₂)
    (adds : w.store.Adds w₂.store) (apart : id ∉ w.store.brood kind args) :
    w₂.store.node id = w.store.node id := by
  by_cases old : id.index < w.store.nodes.size
  · exact adds.node old
  · rw [Store.node_of_size_le (Nat.le_of_not_lt old), Store.node_of_size_le]
    cases spare : kind.spare? args with
    | none =>
        rw [h.size spare]
        exact Nat.le_of_not_lt old
    | some made =>
        have other : id.index ≠ w.store.nodes.size := fun e =>
          apart (Store.mem_brood.mpr (.inr ⟨by rw [spare]; rfl, congrArg NodeId.mk e⟩))
        rw [(h.spare spare).2]
        omega

/-- A node of a complete shape has been made and has adopted its brood. -/
structure World.Raises (w w' : World) (kind : Kind) (args : List (String × Value)) (shape : Shape)
    (n : NodeId) : Prop where
  isNew : w.store.nodes.size ≤ n.index ∧ n.index < w'.store.nodes.size
  lists : w.store.lists.size ≤ w'.store.lists.size
  items (l : ListId) : w'.store.items l = w.store.items l
  founder : w'.store.node n = .ofShape shape
  apart : n ∉ w.store.brood kind args
  child {c : NodeId} : c ∈ w.store.children kind args →
    w'.store.node c = (w.store.node c).setParent (some n)
  spare {made : Shape} : kind.spare? args = some made →
    w'.store.node w.store.nextNode = (Node.ofShape made).setParent (some n)
  other {id : NodeId} : id ∉ w.store.brood kind args → id ≠ n → w'.store.node id = w.store.node id

theorem World.node_assembled (h : Draft.Fulfils kind args w shape w₂) (adds : w.store.Adds w₂.store)
    (accepted : (shape.slots.flatMap (w₂.store.addNode shape).offered).all
      (w₂.store.addNode shape).accepts)
    (inStore : ∀ c ∈ w.store.children kind args, c.index < w.store.nodes.size) (id : NodeId) :
    (w₂.assembled shape).store.node id =
      if id ∈ w.store.brood kind args then
        ((w₂.store.addNode shape).node id).setParent (some w₂.store.nextNode)
      else (w₂.store.addNode shape).node id := by
  have added := trans_of Store.Adds adds (w₂.store.adds_addNode shape)
  have taken : id ∈ (w₂.store.addNode shape).adoptedFrom
      (shape.slots.flatMap (w₂.store.addNode shape).offered) ↔ id ∈ w.store.brood kind args := by
    rw [Store.adoptedFrom_of_all accepted, Store.mem_nodesOf, Store.offered_congr added.items,
      h.offers]
  by_cases hid : id.index < (w₂.store.addNode shape).nodes.size
  · rw [assembled, node_adopting hid]
    simp only [taken]
  -- Outside the store both sides read as a bare node, and nothing of the brood is there.
  · have outside : id ∉ w.store.brood kind args := by
      intro mem
      have := h.lt_of_mem_brood adds inStore mem
      simp only [Store.addNode, Array.size_push] at hid
      omega
    rw [if_neg outside, Store.node_of_size_le (Nat.le_of_not_lt hid), Store.node_of_size_le]
    rw [assembled, size_adopting]
    exact Nat.le_of_not_lt hid

theorem World.assembled_raises (h : Draft.Fulfils kind args w shape w₂)
    (adds : w.store.Adds w₂.store)
    (accepted : (shape.slots.flatMap (w₂.store.addNode shape).offered).all
      (w₂.store.addNode shape).accepts)
    (inStore : ∀ c ∈ w.store.children kind args, c.index < w.store.nodes.size) :
    w.Raises (w₂.assembled shape) kind args shape w₂.store.nextNode := by
  have node := node_assembled h adds accepted inStore
  have lists : (w₂.assembled shape).store.lists = w₂.store.lists := lists_adopting ..
  have apart : w₂.store.nextNode ∉ w.store.brood kind args := fun mem =>
    Nat.lt_irrefl _ (h.lt_of_mem_brood adds inStore mem)
  have brood {c : NodeId} (hc : c ∈ w.store.brood kind args) : (w₂.assembled shape).store.node c =
      (w₂.store.node c).setParent (some w₂.store.nextNode) := by
    rw [node, if_pos hc, Store.node_addNode_of_ne _ _ fun e => apart (e ▸ hc)]
  refine ⟨⟨adds.size, ?isNew⟩, ?lists, ?items, ?founder, apart, ?child, ?spare, ?other⟩
  case isNew =>
    rw [assembled, size_adopting]
    simp [Store.addNode, Store.nextNode]
  case lists =>
    rw [lists]
    exact h.lists
  case items =>
    intro l
    rw [Store.items, lists]
    exact adds.items l
  case founder => rw [node, if_neg apart, Store.node_addNode_nextNode]
  case child =>
    intro c hc
    rw [brood (Store.mem_brood.mpr (.inl hc)), adds.node (inStore c hc)]
  case spare =>
    intro made spare
    rw [brood (Store.mem_brood.mpr (.inr ⟨by rw [spare]; rfl, rfl⟩)), (h.spare spare).1]
  case other =>
    intro id outside new
    rw [node, if_neg outside, Store.node_addNode_of_ne _ _ new, h.node_of_not_mem adds outside]

end

/-- All that a construction has done that gave a new node. -/
structure World.Founds (w w' : World) (kind : Kind) (args : List (String × Value))
    (n : NodeId) : Prop where
  isNew : w.store.nodes.size ≤ n.index ∧ n.index < w'.store.nodes.size
  /-- The children that were given, and the one that was made, have the new node for parent. -/
  adopts : ∀ c ∈ w.store.brood kind args, (w'.store.node c).parent = some n ∧
    ∀ roots, w'.store.Reachable roots (.node n) →
      Action.readField roots (.node c) "parent" w' = .ok (.node n) w'
  spare : ∀ made, kind.spare? args = some made → w'.store.shape w.store.nextNode = made
  unowned : kind.owner args = .null → ∀ roots,
    Action.readField roots (.node n) "parent" w' = .ok .null w'
  owned : ∀ m, kind.owner args = .node m → (w'.store.node n).parent = some m ∧
    ∀ roots, w'.store.Reachable roots (.node m) →
      Action.readField roots (.node n) "parent" w' = .ok (.node m) w'
  others : ∀ id, id ∉ w.store.brood kind args → id ≠ n → w'.store.node id = w.store.node id
  fields : ∀ id : NodeId, id.index < w.store.nodes.size → w'.store.shape id = w.store.shape id ∧
    ∀ name, name ≠ Node.linkName →
      (w'.store.node id).override? name = (w.store.node id).override? name
  registers : kind.owner args = .null ∨ ∃ m l, kind.owner args = .node m ∧
    l.index < w.store.lists.size ∧ w.store.elementsList? (.node m) = some l
  lists : ∀ l : ListId, l.index < w.store.lists.size → w'.store.items l =
    if w.store.elementsList? (kind.owner args) = some l then w.store.items l ++ [.node n]
    else w.store.items l
  /-- As long as its fields hold what they were given, its rendering calls on what it adopted. -/
  calls : ∀ (settings : Settings) (s : Store) (v : Value), s.shape n = w'.store.shape n →
    (∀ l, .list l ∈ (w'.store.shape n).values → s.items l = w.store.items l) →
    s.render settings n = .ok v → ∀ c, s.Calls settings n c ↔ c ∈ w.store.brood kind args

namespace World

/-- What a node was given for parent can be read as long as it is there. -/
theorem readField_of_setParent {w : World} {id : NodeId} {n : Node} {parent : Option NodeId}
    (node : w.store.node id = n.setParent parent) {roots : List Value}
    (reached : ∀ p, parent = some p → w.store.Reachable roots (.node p)) :
    Action.readField roots (.node id) "parent" w = .ok (parent.elim .null .node) w := by
  have own : (w.store.node id).override? Node.linkName = none := by
    rw [node, Node.override?_setParent_linkName]
  have found : w.store.parentAmong roots id = parent := by
    cases parent with
    | none => simp [Store.parentAmong, node, Node.setParent]
    | some p => exact Store.parentAmong_eq_some_iff.mpr ⟨by rw [node]; rfl, reached p rfl⟩
  rw [Action.readField_parent own, found]

variable {w w₁ w' : World} {kind : Kind} {args : List (String × Value)} {shape : Shape} {n : NodeId}

namespace Raises

theorem linked (h : w.Raises w₁ kind args shape n) {c : NodeId}
    (hc : c ∈ w.store.brood kind args) :
    ∃ before : Node, w₁.store.node c = before.setParent (some n) := by
  rcases Store.mem_brood.mp hc with given | ⟨isSome, rfl⟩
  · exact ⟨_, h.child given⟩
  · obtain ⟨made, spare⟩ := Option.isSome_iff_exists.mp isSome
    exact ⟨_, h.spare spare⟩

/-- Of a node that was there nothing but the parent differs. -/
theorem alike (h : w.Raises w₁ kind args shape n) {id : NodeId}
    (old : id.index < w.store.nodes.size) :
    w₁.store.node id = w.store.node id ∨
      w₁.store.node id = (w.store.node id).setParent (some n) := by
  by_cases hc : id ∈ w.store.brood kind args
  · rcases Store.mem_brood.mp hc with given | ⟨-, rfl⟩
    · exact .inr (h.child given)
    · exact absurd old (Nat.lt_irrefl _)
  · refine .inl (h.other hc ?_)
    rintro rfl
    exact Nat.not_lt_of_le h.isNew.1 old

theorem shape_of_lt (h : w.Raises w₁ kind args shape n) {id : NodeId}
    (old : id.index < w.store.nodes.size) : w₁.store.shape id = w.store.shape id := by
  rcases h.alike old with same | linked
  · rw [Store.shape, same]
    rfl
  · rw [Store.shape, linked]
    rfl

end Raises

/-- A node that has adopted its brood is pushed into its program. -/
theorem founds_of_raises (raises : w.Raises w₁ kind args shape n)
    (enters : w₁.Enters w' (kind.owner args) n)
    (has : ∀ v, w.store.Reachable (args.map Prod.snd) v → v.isHandle → w.store.Has v)
    (offers : ∀ c, some (.node c) ∈ shape.slots.flatMap w.store.offered ↔
      c ∈ w.store.brood kind args) : w.Founds w' kind args n := by
  have owner {m : NodeId} (owned : kind.owner args = .node m) :
      w.store.Reachable (args.map Prod.snd) (.node m) := .root (Kind.mem_of_owner owned)
  -- The owner may be one of the children, but to be adopted does not change its elements.
  have elements : w₁.store.elementsList? (kind.owner args) =
      w.store.elementsList? (kind.owner args) :=
    Store.elementsList?_congr fun m owned => raises.shape_of_lt (has _ (owner owned) rfl)
  have made : w'.store.shape n = shape := by
    rcases enters.target with unowned | ⟨m, l, owned, -⟩
    · rw [Store.shape, enters.unowned unowned, raises.founder]
      rfl
    · rw [Store.shape, enters.owned owned, raises.founder]
      rfl
  have kept {id : NodeId} (old : id.index < w.store.nodes.size) :
      w'.store.node id = w₁.store.node id := by
    refine enters.others ?_
    rintro rfl
    exact Nat.not_lt_of_le raises.isNew.1 old
  have child {c : NodeId} (hc : c ∈ w.store.brood kind args) :
      w'.store.node c = w₁.store.node c :=
    enters.others fun e => raises.apart (e ▸ hc)
  refine ⟨⟨raises.isNew.1, by rw [enters.size]; exact raises.isNew.2⟩, ?adopts, ?spare, ?unowned,
    ?owned, ?others, ?fields, ?registers, ?lists, ?calls⟩
  case adopts =>
    intro c hc
    obtain ⟨before, linked⟩ := raises.linked hc
    rw [← child hc] at linked
    refine ⟨by rw [linked]; rfl, fun roots reached => ?_⟩
    refine readField_of_setParent linked fun p e => ?_
    cases e
    exact reached
  case spare =>
    intro made spare
    have new : w.store.nextNode ∈ w.store.brood kind args :=
      Store.mem_brood.mpr (.inr ⟨by rw [spare]; rfl, rfl⟩)
    rw [Store.shape, child new, raises.spare spare]
    rfl
  case unowned =>
    intro unowned roots
    have node : w'.store.node n = (Node.ofShape shape).setParent none :=
      (enters.unowned unowned).trans raises.founder
    exact readField_of_setParent node fun _ absent => absurd absent (Option.some_ne_none _).symm
  case owned =>
    intro m owned
    refine ⟨by rw [enters.owned owned]; rfl, fun roots reached => ?_⟩
    refine readField_of_setParent (enters.owned owned) fun p e => ?_
    cases e
    exact reached
  case others =>
    intro id outside new
    rw [enters.others new, raises.other outside new]
  case fields =>
    intro id old
    rw [Store.shape, kept old]
    refine ⟨raises.shape_of_lt old, fun name other => ?_⟩
    rcases raises.alike old with same | linked
    · rw [same]
    · rw [linked, Node.override?_setParent _ _ other]
  case registers =>
    rcases enters.target with unowned | ⟨m, l, owned, found⟩
    · exact .inl unowned
    · rw [← owned, elements, owned] at found
      have reached := (owner owned).value (Store.mem_values_of_elementsList? found)
      exact .inr ⟨m, l, owned, has _ reached rfl, found⟩
  case lists =>
    intro l old
    rw [enters.items (Nat.lt_of_lt_of_le old raises.lists), elements, raises.items]
  case calls =>
    intro settings s v same contents rendered c
    rw [made] at same contents
    rw [Store.calls_iff_edge rendered, Store.Edge, same, Store.parts_congr contents,
      Shape.node_mem_parts_iff, offers]

end World

namespace Action
variable {w w' : World} {kind : Kind} {args : Arguments} {n : NodeId}

/-- A construction that succeeds adopts what its rendering will call on, is registered with its
owner, and touches nothing else. The arguments lead to nothing but what is in the store. -/
theorem construct_founds (h : construct kind args w = .ok n w')
    (has : ∀ v, w.store.Reachable (args.positional ++ args.named.map Prod.snd) v → v.isHandle →
      w.store.Has v) :
    ∃ assigned, args.assign kind.signature = .ok assigned ∧ w.Founds w' kind assigned n := by
  obtain ⟨assigned, shape, w₂, fits, fulfils, adds, rfl, accepted, registered⟩ := construct_done h
  have given (v : Value) (reached : w.store.Reachable (assigned.map Prod.snd) v)
      (handle : v.isHandle) : w.store.Has v :=
    has v (Store.reachable_of_reachable reached
      (fun r hr _ => .root (mem_of_assign fits hr)) handle) handle
  have inStore (c : NodeId) (hc : c ∈ w.store.children kind assigned) :
      c.index < w.store.nodes.size := given _ (Store.reachable_of_mem_children hc) rfl
  have raises := World.assembled_raises fulfils adds accepted inStore
  have enters := World.enters_of_register registered raises.isNew.2
  exact ⟨assigned, fits, World.founds_of_raises raises enters given fulfils.offers⟩

end Action

namespace World

/-- A program without elements, and a literal. -/
def site : World :=
  { World.empty with
    store :=
      ⟨#[.ofShape (.program (.bool true) (.list ⟨0⟩)), .ofShape (.boolean (.bool true))], #[[]]⟩ }

/-- The condition has been adopted, and so has the empty statement that was made. -/
theorem site_construct_founds : ∃ w',
    Action.construct .conditional ⟨[.node ⟨1⟩], [("module", .node ⟨0⟩)]⟩ site = .ok ⟨3⟩ w' ∧
    (∀ c ∈ [⟨1⟩, ⟨2⟩], Action.readField [.node ⟨0⟩] (.node c) "parent" w' = .ok (.node ⟨3⟩) w') ∧
    Action.readField [.node ⟨0⟩] (.node ⟨3⟩) "parent" w' = .ok (.node ⟨0⟩) w' ∧
    w'.store.items ⟨0⟩ = [.node ⟨3⟩] := by
  obtain ⟨w', done, reached⟩ : ∃ w',
      Action.construct .conditional ⟨[.node ⟨1⟩], [("module", .node ⟨0⟩)]⟩ site = .ok ⟨3⟩ w' ∧
      .list ⟨0⟩ ∈ w'.store.successors (.node ⟨0⟩) ∧ .node ⟨3⟩ ∈ w'.store.successors (.list ⟨0⟩) :=
    ⟨_, rfl, by decide, by decide⟩
  have has (v : Value) (leads : site.store.Reachable [.node ⟨1⟩, .node ⟨0⟩] v) (_ : v.isHandle) :
      site.store.Has v := by
    have mem : v ∈ [Value.node ⟨1⟩, .node ⟨0⟩, .bool true, .list ⟨0⟩] :=
      Store.mem_of_reachable (by decide) (by decide) leads
    simp only [List.mem_cons, List.not_mem_nil, or_false] at mem
    rcases mem with rfl | rfl | rfl | rfl <;> simp [Store.Has, site]
  obtain ⟨assigned, fits, founds⟩ := Action.construct_founds done has
  cases fits
  have program : w'.store.Reachable [.node ⟨0⟩] (.node ⟨0⟩) := .root (by simp)
  have new := Store.Reachable.step (.step program reached.1) reached.2
  refine ⟨w', done, fun c hc => (founds.adopts c ?_).2 _ new,
    (founds.owned ⟨0⟩ rfl).2 _ program, founds.lists ⟨0⟩ (by decide)⟩
  rcases List.mem_pair.mp hc with rfl | rfl <;> decide

end World
end ScriptGraph
