import Mathlib.Logic.Relation
import ScriptGraph.Proofs.Pushing
import ScriptGraph.Proofs.Registration

/-!
How a store comes by a cycle. A node contains the values of its fields and a list its items. What
is constructed contains only what was there before it, so a construction closes no cycle. A push
closes one exactly if a node that it takes in leads to the list of elements; that it leads to the
program is not needed, as the list may be held by others, too.
-/

namespace ScriptGraph
open Relation

section Edges
variable {α : Type} {R S : α → α → Prop} {c a b : α} {P : α → Prop}

/-- A way from where `c` is out of reach uses no edge that was added at `c`. -/
theorem reflTransGen_of_apart (edges : ∀ a b, S a b ↔ R a b ∨ a = c ∧ P b)
    (apart : ¬ ReflTransGen R a c) (path : ReflTransGen S a b) : ReflTransGen R a b := by
  induction path using ReflTransGen.head_induction_on with
  | refl => exact .refl
  | head step _ ih =>
      rcases (edges _ _).1 step with old | ⟨rfl, -⟩
      · exact .head old (ih fun back => apart (.head old back))
      · exact absurd .refl apart

/-- A way that uses an edge added at `c` comes to `c` and goes on from a target. -/
theorem transGen_or_of_edges (edges : ∀ a b, S a b ↔ R a b ∨ a = c ∧ P b)
    (path : TransGen S a b) :
    TransGen R a b ∨ ReflTransGen S a c ∧ ∃ t, P t ∧ ReflTransGen S t b := by
  induction path with
  | single step =>
      rcases (edges _ _).1 step with old | ⟨rfl, target⟩
      · exact .inl (.single old)
      · exact .inr ⟨.refl, _, target, .refl⟩
  | tail path step ih =>
      rcases ih with old | ⟨there, t, target, onward⟩
      · rcases (edges _ _).1 step with edge | ⟨rfl, target⟩
        · exact .inl (old.tail edge)
        · exact .inr ⟨path.to_reflTransGen, _, target, .refl⟩
      · exact .inr ⟨there, t, target, onward.tail step⟩

/-- Edges added at `c`, all at once, close a cycle exactly if `c` was in reach of a target. -/
theorem acyclic_iff_of_edges (edges : ∀ a b, S a b ↔ R a b ∨ a = c ∧ P b)
    (acyclic : ∀ a, ¬ TransGen R a a) :
    (∀ a, ¬ TransGen S a a) ↔ ∀ t, P t → ¬ ReflTransGen R t c := by
  constructor
  · intro none t target back
    have back : ReflTransGen S t c :=
      ReflTransGen.mono (fun a b old => (edges a b).2 (.inl old)) t c back
    exact none c (.head' ((edges c t).2 (.inr ⟨rfl, target⟩)) back)
  · intro apart a cycle
    rcases transGen_or_of_edges edges cycle with old | ⟨there, t, target, onward⟩
    · exact acyclic a old
    · -- The cycle leads from a target back to `c`, so it did so before the edges were added.
      exact apart t target (reflTransGen_of_apart edges (apart t target) (onward.trans there))

end Edges

namespace Store
variable {s s' : Store} {u v : Value}

/-- The values in the fields of a node, or the items of a list. -/
def inside (s : Store) : Value → List Value
  | .list l => s.items l
  | .node id => (s.shape id).values
  | .null | .bool _ | .int .. | .real .. | .text .. => []

def Contains (s : Store) (u v : Value) : Prop :=
  v ∈ s.inside u

instance (s : Store) (u v : Value) : Decidable (s.Contains u v) :=
  inferInstanceAs (Decidable (v ∈ s.inside u))

/-- Nothing contains itself, at any depth. -/
def Acyclic (s : Store) : Prop :=
  ∀ v, ¬ TransGen s.Contains v v

/-- There are no cycles, and whatever is contained in something is in the store. -/
structure Grounded (s : Store) : Prop where
  acyclic : s.Acyclic
  closed {u v : Value} : s.Contains u v → s.Has v

/-- The other store has as much, and everything contains the same there. -/
structure Upholds (s s' : Store) : Prop where
  grows : s.Grows s'
  inside (u : Value) : s'.inside u = s.inside u

instance : IsPreorder Store Upholds where
  refl s := ⟨.refl s, fun _ => rfl⟩
  trans _ _ _ h k := ⟨h.grows.trans k.grows, fun u => (k.inside u).trans (h.inside u)⟩

theorem Upholds.grounded (h : s.Upholds s') (hs : s.Grounded) : s'.Grounded := by
  have same : s'.Contains = s.Contains := by
    funext u v
    rw [Contains, h.inside, Contains]
  refine ⟨?_, fun held => h.grows.has (hs.closed (same ▸ held))⟩
  rw [Acyclic, same]
  exact hs.acyclic

theorem upholds_setParent (s : Store) (child : NodeId) (parent : Option NodeId) :
    s.Upholds (s.setParent child parent) where
  grows := s.grows_setNode _ _
  inside u := by
    cases u with
    | node id => rw [inside, inside, shape_setParent]
    | list _ | null | bool _ | int _ _ | real _ _ | text _ _ => rfl

theorem upholds_addList_nil (s : Store) : s.Upholds (s.addList []) where
  grows := s.grows_addList []
  inside u := by
    cases u with
    | list l => exact s.adds_addList_nil.items l
    | node _ | null | bool _ | int _ _ | real _ _ | text _ _ => rfl

theorem contains_addNode_iff (shape : Shape) (u v : Value) :
    (s.addNode shape).Contains u v ↔
      s.Contains u v ∨ u = .node s.nextNode ∧ v ∈ shape.values := by
  have other {u : Value} (h : u ≠ .node s.nextNode) : (s.addNode shape).inside u = s.inside u := by
    cases u with
    | node id =>
        have h : id ≠ s.nextNode := fun same => h (congrArg Value.node same)
        rw [inside, inside, Store.shape, node_addNode_of_ne s shape h]
        rfl
    | list _ | null | bool _ | int _ _ | real _ _ | text _ _ => rfl
  by_cases new : u = .node s.nextNode
  · have bare : s.node s.nextNode = .ofShape .bare := node_of_size_le (Nat.le_refl _)
    have before : s.inside (.node s.nextNode) = [] := by
      rw [inside, Store.shape, bare]
      rfl
    have now : (s.addNode shape).inside (.node s.nextNode) = shape.values := by
      rw [inside, Store.shape, node_addNode_nextNode]
      rfl
    rw [new, Contains, Contains, before, now]
    simp
  · rw [Contains, Contains, other new]
    simp [new]

/-- A new node that contains what is in the store closes no cycle: nothing leads to it yet. -/
theorem Grounded.addNode (h : s.Grounded) {shape : Shape} (has : ∀ v ∈ shape.values, s.Has v) :
    (s.addNode shape).Grounded := by
  have new : ¬ s.Has (.node s.nextNode) := Nat.lt_irrefl _
  refine ⟨?_, fun held => ?_⟩
  · refine (acyclic_iff_of_edges (contains_addNode_iff shape) h.acyclic).2 ?_
    intro v hv path
    rcases ReflTransGen.cases_tail path with same | ⟨u, -, held⟩
    · exact new (same ▸ has v hv)
    · exact new (h.closed held)
  · refine (s.grows_addNode shape).has ?_
    rcases (contains_addNode_iff shape _ _).1 held with old | ⟨-, hv⟩
    · exact h.closed old
    · exact has _ hv

theorem has_of_isHandle (h : v.isHandle → s.Has v) : s.Has v := by
  cases v with
  | node _ | list _ => exact h rfl
  | null | bool _ | int _ _ | real _ _ | text _ _ => trivial

end Store

namespace Action
variable {α β : Type} {w : World}

/-- Given values of the store, the action closes no cycle, and what it results in is in the
store. -/
def Builds (act : Action α) (given : List Value) (result : α → List Value) : Prop :=
  ∀ w, w.store.Grounded → (∀ v ∈ given, w.store.Has v) → act.Ensures w
    (fun a s => s.Grounded ∧ w.store.Grows s ∧ ∀ v ∈ result a, s.Has v) Store.Grounded

theorem Builds.bind {act : Action α} {f : α → Action β} {given : List Value}
    {result : α → List Value} {final : β → List Value} (h : act.Builds given result)
    (k : ∀ a, (f a).Builds (result a ++ given) final) : (act >>= f).Builds given final := by
  intro w grounded has
  refine (h w grounded has).bind fun a w₁ ⟨grounded₁, grows, has₁⟩ => ?_
  have next := k a w₁ grounded₁ fun v hv => ?_
  · exact next.mono (fun _ _ ⟨done, later, has₂⟩ => ⟨done, grows.trans later, has₂⟩) fun _ => id
  · rcases List.mem_append.mp hv with hv | hv
    · exact has₁ v hv
    · exact grows.has (has v hv)

/-- An action that changes no contents. -/
theorem builds_of_upholds {act : Action α} (h : act.Keeping Store.Upholds) (given : List Value) :
    act.Builds given fun _ => [] :=
  fun w grounded _ => (h w).mono
    (fun _ _ upholds => ⟨upholds.grounded grounded, upholds.grows, by simp⟩)
    fun _ upholds => upholds.grounded grounded

theorem tracks_builds : Tracks @Builds where
  pure h := fun w grounded has =>
    ⟨grounded, .refl _, fun v hv => Store.has_of_isHandle fun handle => has v (h v hv handle)⟩
  throw _ _ _ := fun _ grounded _ => grounded
  bind := Builds.bind
  weaken h sub := fun w grounded has => h w grounded fun v hv =>
    Store.has_of_isHandle fun handle => has v (sub v hv handle)
  store h := fun w => h w.store w
  record _ _ _ := fun w grounded _ => ⟨grounded, .refl w.store, by simp⟩
  newNode shape := fun w grounded has => by
    refine ⟨grounded.addNode has, w.store.grows_addNode shape, fun v hv => ?_⟩
    rw [List.mem_singleton.mp hv]
    simp [Store.Has, Store.addNode, Store.nextNode]
  newList := fun w grounded _ => by
    have upholds := w.store.upholds_addList_nil
    refine ⟨upholds.grounded grounded, upholds.grows, fun v hv => ?_⟩
    rw [List.mem_singleton.mp hv]
    simp [Store.Has, Store.addList, Store.nextList]
  adoptSlots parent slots :=
    builds_of_upholds (Keeping.adoptSlots Store.upholds_setParent parent slots) _

/-- What is built before it is registered closes no cycle. -/
theorem raise_builds (kind : Kind) (assigned : List (String × Value)) :
    (raise kind assigned).Builds (assigned.map Prod.snd) fun id => [.node id] := by
  refine (tracks_builds.ofArguments kind assigned).bind fun draft => ?_
  exact tracks_builds.weaken (tracks_builds.assemble draft.shape) (by simp +contextual)

end Action

namespace Store
variable {s : Store} {m : NodeId} {nodes : List NodeId}

/-- Nothing was set on the program in the place of an operation that a push carries out. -/
def isOpen (s : Store) (m : NodeId) : Bool :=
  ["push", "become_parent_of"].all fun member => ((s.node m).override? member).isNone

theorem isOpen_iff : s.isOpen m ↔
    (s.node m).override? "push" = none ∧ (s.node m).override? "become_parent_of" = none := by
  simp [isOpen]

/-- The nodes that a push takes in: if the program is open, those before the first that cannot be
given a parent. -/
def takenBy (s : Store) (m : NodeId) (nodes : List NodeId) : List NodeId :=
  if s.isOpen m then nodes.takeWhile fun n => ((s.node n).override? "set_parent").isNone else []

theorem map_takenBy (h : s.isOpen m) :
    (s.takenBy m nodes).map Value.node = s.takenFrom (nodes.map .node) := by
  rw [takenBy, if_pos h, takenFrom, List.takeWhile_map]
  rfl

end Store

/-- Only the list that values are received in contains more. -/
theorem World.contains_foldl_receive_iff {w : World} {m : NodeId} {l : ListId} {vs : List Value}
    (inStore : l.index < w.store.lists.size) (u v : Value) :
    (vs.foldl (receive m l) w).store.Contains u v ↔
      w.store.Contains u v ∨ u = .list l ∧ v ∈ vs := by
  by_cases same : u = .list l
  · subst same
    rw [Store.Contains, Store.inside, items_foldl_receive inStore, List.mem_append]
    simp [Store.Contains, Store.inside]
  · have kept := (foldl_receive_spares m l vs w).retains u same
    have inside : (vs.foldl (receive m l) w).store.inside u = w.store.inside u := by
      cases u with
      | node id => rw [Store.inside, Store.inside, kept.1]
      | list k => exact kept
      | null | bool _ | int _ _ | real _ _ | text _ _ => rfl
    rw [Store.Contains, inside]
    simp [same, Store.Contains]

namespace Action
variable {w : World} {m : NodeId} {l : ListId} {strict : Value}

theorem after_of_error {α : Type} {act : Action α} {w' : World} {fault : Fault}
    (h : act w = .error fault w') : act.after w = w' := by
  rw [after, h]

theorem after_bind_of_ok {α β : Type} {act : Action α} {f : α → Action β} {a : α} {w₁ : World}
    (h : act w = .ok a w₁) : (act >>= f).after w = (f a).after w₁ := by
  rw [after, bind_of_ok h, after]

theorem after_bind_pure {α β : Type} (act : Action α) (g : α → β) (w : World) :
    (act >>= fun a => pure (g a)).after w = act.after w := by
  cases h : act w with
  | ok a w₁ =>
      rw [after_bind_of_ok h, after_of_ok h]
      rfl
  | error fault w₁ => rw [after_of_error (bind_of_error h), after_of_error h]

/-- A push leaves the values that can be taken at the end of the elements, whether it fails at the
next one or not. -/
theorem store_after_push (program : w.store.shape m = .program strict (.list l))
    (isOpen : w.store.isOpen m) (vs : List Value) :
    ((push (.node m) vs).after w).store =
      ((w.store.takenFrom vs).foldl (World.receive m l) w).store := by
  have own := Store.isOpen_iff.1 isOpen
  by_cases all : w.store.takenFrom vs = vs
  · have pushed : pushEach m (.list l) vs w = .ok () (vs.foldl (World.receive m l) w) :=
      pushEach_accepted own.2 (List.takeWhile_eq_self_iff.mp all)
    have found : elementsFor "push" (.node m) w = .ok (m, .list l) w :=
      elementsFor_program program own.1
    rw [after, push_of_found found, bind_of_ok pushed, all]
    rfl
  · obtain ⟨fault, failed⟩ := push_refused program (by simpa using own) all
    rw [after_of_error failed]

/-- A push leaves the store as it is if the program is not open. -/
theorem store_after_push_of_not_isOpen (program : w.store.shape m = .program strict (.list l))
    (closed : ¬ w.store.isOpen m) (vs : List Value) :
    ((push (.node m) vs).after w).store = w.store := by
  cases own : (w.store.node m).override? "push" with
  | some u =>
      have failed : push (.node m) vs w = .error _ w :=
        bind_of_error (bind_of_error (expectOwn_of_some own))
      rw [after_of_error failed]
  | none =>
      have found : elementsFor "push" (.node m) w = .ok (m, .list l) w :=
        elementsFor_program program own
      cases other : (w.store.node m).override? "become_parent_of" with
      | none => exact absurd (Store.isOpen_iff.2 ⟨own, other⟩) closed
      | some u =>
          cases vs with
          | nil =>
              rw [after, push_of_found found]
              rfl
          | cons v vs =>
              have failed : pushEach m (.list l) (v :: vs) w = .error _ w :=
                bind_of_error (bind_of_error (expectOwn_of_some other))
              rw [after_of_error ((push_of_found found _).trans (bind_of_error failed))]

/-- A push closes a cycle exactly if a node that it takes in leads to the list of elements. -/
theorem acyclic_after_push_iff (grounded : w.store.Grounded)
    (program : w.store.shape m = .program strict (.list l)) (nodes : List NodeId) :
    ((push (.node m) (nodes.map .node)).after w).store.Acyclic ↔
      ∀ n ∈ w.store.takenBy m nodes, ¬ ReflTransGen w.store.Contains (.node n) (.list l) := by
  by_cases isOpen : w.store.isOpen m
  · have held : w.store.Contains (.node m) (.list l) := by
      rw [Store.Contains, Store.inside, program]
      simp [Shape.values, Shape.fields]
    rw [store_after_push program isOpen, ← Store.map_takenBy isOpen]
    refine (acyclic_iff_of_edges (World.contains_foldl_receive_iff (grounded.closed held))
      grounded.acyclic).trans ?_
    simp
  · rw [store_after_push_of_not_isOpen program isOpen, Store.takenBy, if_neg isOpen]
    simpa using grounded.acyclic

end Action

namespace Action
variable {w w₁ : World} {kind : Kind} {args : Arguments} {assigned : List (String × Value)}

/-- A construction whose arguments do not fit leaves everything as it is. -/
theorem after_construct_of_error {fault : Fault}
    (misfit : args.assign kind.signature = .error fault) : (construct kind args).after w = w := by
  rw [after, construct, misfit]
  rfl

/-- Once a node is built it is registered. -/
theorem after_construct_of_raise {n : NodeId} (fits : args.assign kind.signature = .ok assigned)
    (raised : raise kind assigned w = .ok n w₁) :
    (construct kind args).after w = (register (kind.owner assigned) n).after w₁ := by
  rw [construct_of_assign fits, after_bind_of_ok raised]
  exact after_bind_pure _ (fun _ => n) w₁

theorem after_register_node (m n : NodeId) (w : World) :
    (register (.node m) n).after w = (push (.node m) [.node n]).after w := by
  rw [register, if_neg (by simp)]
  exact after_bind_pure _ (fun _ => ()) w

/-- Nothing has been set on a new node. -/
theorem override?_of_raise {n : NodeId} (raised : raise kind assigned w = .ok n w₁)
    {member : String} (other : member ≠ Node.linkName) :
    (w₁.store.node n).override? member = none := by
  obtain ⟨draft, w₂, -, assembled⟩ := ok_of_bind raised
  obtain ⟨shape, w₃, -, rest⟩ := ok_of_bind assembled
  rw [bind_of_ok (newNode_eq shape w₃)] at rest
  obtain ⟨_, w₅, adopted, rest⟩ := ok_of_bind rest
  cases rest
  have kept := Keeping.adoptSlots Store.retainsAll_setParent w₃.store.nextNode shape.slots
    { w₃ with store := w₃.store.addNode shape }
  rw [Ensures, adopted] at kept
  rw [(kept (.node w₃.store.nextNode)).2 member other, Store.node_addNode_nextNode]
  rfl

/-- Where nothing is registered, no cycle is closed. -/
theorem acyclic_after_construct (grounded : w.store.Grounded)
    (has : ∀ v ∈ args.positional ++ args.named.map Prod.snd, w.store.Has v)
    (nothing : ∀ assigned, args.assign kind.signature = .ok assigned →
      kind.owner assigned = .null ∨ ∃ fault w₁, raise kind assigned w = .error fault w₁) :
    ((construct kind args).after w).store.Acyclic := by
  cases fits : args.assign kind.signature with
  | error fault =>
      rw [after_construct_of_error fits]
      exact grounded.acyclic
  | ok assigned =>
      have built := raise_builds kind assigned w grounded fun v hv => has v (mem_of_assign fits hv)
      cases raised : raise kind assigned w with
      | error fault w₁ =>
          rw [Ensures, raised] at built
          rw [construct_of_assign fits, after_of_error (bind_of_error raised)]
          exact built.acyclic
      | ok n w₁ =>
          rw [Ensures, raised] at built
          rcases nothing assigned fits with absent | ⟨fault, w', failed⟩
          · rw [after_construct_of_raise fits raised, absent]
            exact built.1.acyclic
          · cases failed.symm.trans raised

end Action

/-- When a call closes a cycle: no construction does so by what it builds, and a push, or the
registration of what was built, does so by the nodes that it takes in. -/
structure World.CycleLaws (w : World) : Prop where
  unregistered (kind : Kind) (args : Arguments)
    (has : ∀ v ∈ args.positional ++ args.named.map Prod.snd, w.store.Has v)
    (nothing : ∀ assigned, args.assign kind.signature = .ok assigned →
      kind.owner assigned = .null ∨ ∃ fault w₁, Action.raise kind assigned w = .error fault w₁) :
    ((Action.construct kind args).after w).store.Acyclic
  pushed (m : NodeId) (strict : Value) (l : ListId) (nodes : List NodeId)
    (program : w.store.shape m = .program strict (.list l)) :
    ((Action.push (.node m) (nodes.map .node)).after w).store.Acyclic ↔
      ∀ n ∈ w.store.takenBy m nodes, ¬ ReflTransGen w.store.Contains (.node n) (.list l)
  registered (kind : Kind) (args : Arguments) (assigned : List (String × Value)) (m n : NodeId)
    (strict : Value) (l : ListId) (w₁ : World)
    (has : ∀ v ∈ args.positional ++ args.named.map Prod.snd, w.store.Has v)
    (fits : args.assign kind.signature = .ok assigned) (owner : kind.owner assigned = .node m)
    (raised : Action.raise kind assigned w = .ok n w₁)
    (program : w₁.store.shape m = .program strict (.list l)) :
    ((Action.construct kind args).after w).store.Acyclic ↔
      (w₁.store.isOpen m → ¬ ReflTransGen w₁.store.Contains (.node n) (.list l))

/-- A world without cycles comes by one only where a node is taken in by a program whose elements
it leads to. -/
theorem World.cycleLaws_of_grounded {w : World} (grounded : w.store.Grounded) : w.CycleLaws where
  unregistered _ _ has nothing := Action.acyclic_after_construct grounded has nothing
  pushed _ _ _ nodes program := Action.acyclic_after_push_iff grounded program nodes
  registered kind args assigned m n strict l w₁ has fits owner raised program := by
    have built := Action.raise_builds kind assigned w grounded fun v hv =>
      has v (Action.mem_of_assign fits hv)
    rw [Action.Ensures, raised] at built
    rw [Action.after_construct_of_raise fits raised, owner, Action.after_register_node]
    refine (Action.acyclic_after_push_iff built.1 program [n]).trans ?_
    have free := Action.override?_of_raise raised (by decide : "set_parent" ≠ Node.linkName)
    by_cases isOpen : w₁.store.isOpen m <;> simp [Store.takenBy, isOpen, free]

namespace World

/-- A program, a block that holds the list of its elements, and an empty statement. What was set
on the program is a parameter. -/
def sharing (extras : List (String × Value)) : World :=
  { World.empty with
    store :=
      ⟨#[⟨.program (.bool true) (.list ⟨0⟩), none, extras⟩, .ofShape (.block (.list ⟨0⟩)),
        .ofShape .empty], #[[]]⟩ }

/-- Only nodes contain something, and all that they contain is the list and a truth value. -/
theorem sharing_contains {extras : List (String × Value)} {u v : Value}
    (h : (sharing extras).store.Contains u v) :
    (∃ id, u = .node id) ∧ (v = .bool true ∨ v = .list ⟨0⟩) := by
  cases u with
  | node id =>
      obtain ⟨i⟩ := id
      refine ⟨⟨⟨i⟩, rfl⟩, ?_⟩
      rcases i with _ | _ | _ | i
      · simpa [sharing, Store.Contains, Store.inside, Store.shape, Store.node, Shape.values,
          Shape.fields] using h
      · exact .inr (List.mem_singleton.mp h)
      · cases h
      · cases h
  | list l =>
      obtain ⟨i⟩ := l
      rcases i with _ | i <;> cases h
  | null | bool _ | int _ _ | real _ _ | text _ _ => cases h

theorem sharing_grounded (extras : List (String × Value)) : (sharing extras).store.Grounded where
  acyclic v cycle := by
    obtain ⟨u, first, -⟩ := TransGen.head'_iff.mp cycle
    obtain ⟨u', -, last⟩ := TransGen.tail'_iff.mp cycle
    obtain ⟨⟨id, rfl⟩, -⟩ := sharing_contains first
    rcases (sharing_contains last).2 with same | same <;> cases same
  closed h := by
    rcases (sharing_contains h).2 with rfl | rfl
    · trivial
    · exact Nat.zero_lt_one

/-- A push of the block closes a cycle, though it does not lead to the program, and so does the
registration of another block that holds the list. -/
theorem sharing_cycleLaws :
    ((Action.push (.node ⟨0⟩) [.node ⟨2⟩]).after (sharing [])).store.Acyclic ∧
    ¬ ((Action.push (.node ⟨0⟩) [.node ⟨2⟩, .node ⟨1⟩]).after (sharing [])).store.Acyclic ∧
    ((Action.construct .block ⟨[.list ⟨0⟩], []⟩).after (sharing [])).store.Acyclic ∧
    ¬ ((Action.construct .block ⟨[.list ⟨0⟩, .node ⟨0⟩], []⟩).after
      (sharing [])).store.Acyclic := by
  have laws := cycleLaws_of_grounded (sharing_grounded [])
  have holds : (sharing []).store.Contains (.node ⟨1⟩) (.list ⟨0⟩) := by decide
  refine ⟨(laws.pushed ⟨0⟩ _ ⟨0⟩ [⟨2⟩] rfl).2 fun n mem path => ?_, fun acyclic => ?_,
    laws.unregistered .block _ (by simp [Store.Has, sharing]) ?_, fun acyclic => ?_⟩
  · obtain rfl : n = ⟨2⟩ := List.mem_singleton.mp mem
    rcases ReflTransGen.cases_head path with same | ⟨v, first, -⟩
    · cases same
    · cases first
  · exact (laws.pushed ⟨0⟩ _ ⟨0⟩ [⟨2⟩, ⟨1⟩] rfl).1 acyclic ⟨1⟩ (by decide) (.single holds)
  · rintro assigned fits
    cases fits
    exact .inl rfl
  · exact (laws.registered .block _ _ ⟨0⟩ ⟨3⟩ _ ⟨0⟩ _ (by simp [Store.Has, sharing]) rfl rfl rfl
      rfl).1 acyclic rfl (.single (by decide))

/-- The block leads to the elements of the program, and yet no cycle is closed if something was
set in the place of the push. -/
theorem not_cycle_of_push :
    (sharing [("push", .null)]).store.Acyclic ∧
    (sharing [("push", .null)]).store.shape ⟨0⟩ = .program (.bool true) (.list ⟨0⟩) ∧
    ReflTransGen (sharing [("push", .null)]).store.Contains (.node ⟨1⟩) (.list ⟨0⟩) ∧
    ((Action.push (.node ⟨0⟩) [.node ⟨1⟩]).after (sharing [("push", .null)])).store.Acyclic :=
  ⟨(sharing_grounded _).acyclic, rfl, .single (by decide), (sharing_grounded _).acyclic⟩

end World
end ScriptGraph
