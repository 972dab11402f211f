import ScriptGraph.Proofs.Adoption
import ScriptGraph.Proofs.Locality
import ScriptGraph.Proofs.Marking

/-!
A program is a stack. Calls of push and pop act on its elements as on a stack of values,
and its rendering follows, as long as none of the elements leads back to the list they
are kept in.
-/

namespace ScriptGraph

/-- A call on a program. -/
inductive StackCall
  | push (nodes : List NodeId)
  | pop

namespace StackCall

/-- What a call does to a stack, the top of which is the end of the list. -/
def onStack (stack : List Value) : StackCall → List Value
  | push nodes => stack ++ nodes.map .node
  | pop => stack.dropLast

def pushed : StackCall → List NodeId
  | push nodes => nodes
  | pop => []

end StackCall

namespace Action

/-- The world after an action, whether it is done or has failed. -/
def after {α : Type} (act : Action α) (w : World) : World :=
  match act w with
  | .ok _ w' | .error _ w' => w'

theorem after_of_ok {α : Type} {act : Action α} {w w' : World} {a : α} (h : act w = .ok a w') :
    act.after w = w' := by
  rw [after, h]

end Action

/-- The world after a call on a program. -/
def StackCall.apply (m : NodeId) (w : World) : StackCall → World
  | push nodes => (Action.push (.node m) (nodes.map .node)).after w
  | pop => (Action.pop (.node m)).after w

namespace Store
variable {s s' : Store} {m : NodeId} {l : ListId}

/-- The node is a program with its elements in the list, none of which leads to it. Nothing was
set on the program in the place of its operations. -/
structure IsStack (s : Store) (m : NodeId) (l : ListId) (strict : Value) : Prop where
  program : s.shape m = .program strict (.list l)
  inStore : l.index < s.lists.size
  plain : ∀ member ∈ ["push", "pop", "become_parent_of", "serialize"],
    (s.node m).override? member = none
  apart : ∀ v ∈ s.items l, ¬ s.Reachable [v] (.list l)

/-- The node can be given a parent and does not lead to the list. -/
structure IsStackable (s : Store) (l : ListId) (n : NodeId) : Prop where
  inStore : n.index < s.nodes.size
  plain : (s.node n).override? "set_parent" = none
  apart : ¬ s.Reachable [.node n] (.list l)

/-- Nothing but one list differs, parents apart. -/
structure Spares (s s' : Store) (l : ListId) : Prop where
  retains : ∀ v ≠ .list l, s.Retains s' v
  nodes : s'.nodes.size = s.nodes.size
  lists : s'.lists.size = s.lists.size

namespace Spares

theorem refl (s : Store) (l : ListId) : s.Spares s l :=
  ⟨fun v _ => .refl s v, rfl, rfl⟩

theorem trans {s'' : Store} (h : s.Spares s' l) (k : s'.Spares s'' l) : s.Spares s'' l :=
  ⟨fun v hv => (h.retains v hv).trans (k.retains v hv), k.nodes.trans h.nodes,
    k.lists.trans h.lists⟩

theorem setItems (s : Store) (l : ListId) (items : List Value) :
    s.Spares (s.setItems l items) l where
  retains v hv := by
    cases v with
    | node id => exact ⟨rfl, fun _ _ => rfl⟩
    | list k => exact items_setItems_of_ne (fun e => hv (congrArg Value.list e)) items
    | null | bool _ | int _ _ | real _ _ | text _ _ => trivial
  nodes := rfl
  lists := by simp [Store.setItems]

theorem setParent (s : Store) (l : ListId) (child : NodeId) (parent : Option NodeId) :
    s.Spares (s.setParent child parent) l :=
  ⟨fun v _ => s.retainsAll_setParent child parent v, s.size_setParent child parent, rfl⟩

theorem shape (h : s.Spares s' l) (id : NodeId) : s'.shape id = s.shape id :=
  (h.retains (.node id) (by simp)).1

theorem override? (h : s.Spares s' l) (id : NodeId) {member : String}
    (hm : member ≠ Node.linkName) : (s'.node id).override? member = (s.node id).override? member :=
  (h.retains (.node id) (by simp)).2 member hm

/-- What does not lead to the list is rendered as before. -/
theorem render (h : s.Spares s' l) {settings : Settings} {n : NodeId}
    (apart : ¬ s.Reachable [.node n] (.list l)) :
    s'.render settings n = s.render settings n := by
  refine render_eq_of_retains (fun v reached => h.retains v ?_) ?_
  · rintro rfl
    exact apart reached
  · cases hd : settings.directive with
    | node id => exact (h.retains (.node id) (by simp)).typeName
    | null | bool _ | int _ _ | real _ _ | text _ _ | list _ => rfl

theorem accepts (h : s.Spares s' l) : s'.accepts = s.accepts :=
  accepts_congr fun id => h.override? id (by decide)

end Spares

/-- The rendering of a program whose elements have the given texts. Only a strict program has
an opening. -/
def programText (s : Store) (settings : Settings) (strict : Value) (texts : List String) :
    Except Fault Value := do
  let opening ← (if s.isTrue strict then settings.opening s else return "" : Except Fault String)
  return .text (opening ++ String.join texts)

end Store

namespace World
variable {m : NodeId} {l : ListId} {w : World} {vs : List Value}

/-- The world once a program has taken in a node at the end of its elements. -/
def take (m : NodeId) (l : ListId) (w : World) (n : NodeId) : World :=
  { w.link n (some m) with
    store := (w.store.setParent n (some m)).setItems l (w.store.items l ++ [.node n]) }

theorem take_spares (m : NodeId) (l : ListId) (w : World) (n : NodeId) :
    w.store.Spares (w.take m l n).store l :=
  (Store.Spares.setParent w.store l n (some m)).trans (.setItems _ l _)

theorem items_take {n : NodeId} (h : l.index < w.store.lists.size) :
    (w.take m l n).store.items l = w.store.items l ++ [.node n] :=
  Store.items_setItems (s := w.store.setParent n (some m)) h _

/-- The world once a program has taken in a value at the end of its elements. Only a node gets a
parent. -/
def receive (m : NodeId) (l : ListId) (w : World) : Value → World
  | .node n => w.take m l n
  | v => { w with store := w.store.setItems l (w.store.items l ++ [v]) }

theorem receive_spares (m : NodeId) (l : ListId) (w : World) (v : Value) :
    w.store.Spares (w.receive m l v).store l := by
  cases v with
  | node n => exact take_spares m l w n
  | null | bool _ | int _ _ | real _ _ | text _ _ | list _ => exact .setItems _ l _

theorem foldl_receive_spares (m : NodeId) (l : ListId) (vs : List Value) (w : World) :
    w.store.Spares (vs.foldl (receive m l) w).store l := by
  induction vs generalizing w with
  | nil => exact .refl _ _
  | cons v vs ih => exact (receive_spares m l w v).trans (ih _)

theorem items_receive (h : l.index < w.store.lists.size) (v : Value) :
    (w.receive m l v).store.items l = w.store.items l ++ [v] := by
  cases v with
  | node n => exact items_take h
  | null | bool _ | int _ _ | real _ _ | text _ _ | list _ => exact Store.items_setItems h _

theorem items_foldl_receive (h : l.index < w.store.lists.size) :
    (vs.foldl (receive m l) w).store.items l = w.store.items l ++ vs := by
  induction vs generalizing w with
  | nil => simp
  | cons v vs ih =>
      have inStore : l.index < (w.receive m l v).store.lists.size :=
        (receive_spares m l w v).lists ▸ h
      rw [List.foldl_cons, ih inStore, items_receive h]
      simp

theorem journal_foldl_receive (m : NodeId) (l : ListId) (vs : List Value) (w : World) :
    (vs.foldl (receive m l) w).journal = w.journal := by
  induction vs generalizing w with
  | nil => rfl
  | cons v vs ih =>
      refine (ih _).trans ?_
      cases v <;> rfl

theorem node_receive {v : Value} {id : NodeId} (h : v = .node id → id.index < w.store.nodes.size) :
    (w.receive m l v).store.node id =
      if v = .node id then (w.store.node id).setParent (some m) else w.store.node id := by
  cases v with
  | node n =>
      change (w.store.setParent n (some m)).node id = _
      by_cases same : n = id
      · subst same
        rw [w.store.node_setParent_self _ (h rfl), if_pos rfl]
      · rw [w.store.node_setParent_of_ne _ (Ne.symm same), if_neg (by simpa using same)]
  | null | bool _ | int _ _ | real _ _ | text _ _ | list _ => rfl

/-- The nodes that were taken in have the program for their parent, and nothing else differs in
any node. -/
theorem node_foldl_receive {id : NodeId} (h : .node id ∈ vs → id.index < w.store.nodes.size) :
    (vs.foldl (receive m l) w).store.node id =
      if .node id ∈ vs then (w.store.node id).setParent (some m) else w.store.node id := by
  induction vs generalizing w with
  | nil => rfl
  | cons v vs ih =>
      have inStore (mem : .node id ∈ vs) : id.index < (w.receive m l v).store.nodes.size :=
        (receive_spares m l w v).nodes ▸ h (List.mem_cons_of_mem _ mem)
      rw [List.foldl_cons, ih inStore, node_receive fun same => h (by simp [same])]
      by_cases same : v = .node id
      · simp [same]
      · simp [same, Ne.symm same]

end World

namespace Action
variable {w : World} {m : NodeId} {l : ListId} {strict : Value} {vs : List Value}
variable {nodes : List NodeId}

theorem adopt_accepted (own : (w.store.node m).override? "become_parent_of" = none) {v : Value}
    (accepted : w.store.accepts (some v)) :
    (do adopt m v; appendTo (.list l) v : Action Unit) w = .ok () (w.receive m l v) := by
  cases v with
  | null => exact (bind_of_ok (bind_of_ok (expectOwn_of_none own))).trans rfl
  | node n =>
      have free : (w.store.node n).override? "set_parent" = none := by
        simpa [Store.accepts] using accepted
      exact (bind_of_ok (adopt_node own free)).trans rfl
  | bool _ | int _ _ | real _ _ | text _ _ | list _ => cases accepted

/-- Values that can be adopted are taken in. -/
theorem pushEach_accepted (own : (w.store.node m).override? "become_parent_of" = none)
    (accepted : ∀ v ∈ vs, w.store.accepts (some v)) :
    pushEach m (.list l) vs w = .ok () (vs.foldl (World.receive m l) w) := by
  induction vs generalizing w with
  | nil => rfl
  | cons v vs ih =>
      have spared := World.receive_spares m l w v
      rw [pushEach, ← bind_assoc, bind_of_ok (adopt_accepted own (accepted v (by simp)))]
      refine ih ?_ fun u hu => ?_
      · rw [spared.override? m (by decide)]
        exact own
      · rw [spared.accepts]
        exact accepted u (by simp [hu])

/-- What a push of nodes comes to. -/
theorem push_nodes (program : w.store.shape m = .program strict (.list l))
    (own : ∀ member ∈ ["push", "become_parent_of"], (w.store.node m).override? member = none)
    (inStore : l.index < w.store.lists.size)
    (free : ∀ n ∈ nodes, (w.store.node n).override? "set_parent" = none) :
    push (.node m) (nodes.map .node) w =
      .ok ((w.store.items l).length + nodes.length)
        { (nodes.map .node).foldl (World.receive m l) w with
          journal := w.journal ++ [⟨.debug, "Pushed " ++ nodes.length.repr ++
            " node(s), module now holds " ++
              ((w.store.items l).length + nodes.length).repr⟩] } := by
  refine (bind_of_ok (elementsFor_program program (own _ (by simp)))).trans ?_
  have accepted : ∀ v ∈ nodes.map .node, w.store.accepts (some v) := by
    intro v mem
    obtain ⟨n, hn, rfl⟩ := List.mem_map.mp mem
    simp [Store.accepts, free n hn]
  refine (bind_of_ok (pushEach_accepted (own _ (by simp)) accepted)).trans ?_
  have counted : length (.list l) ((nodes.map .node).foldl (World.receive m l) w) =
      .ok ((w.store.items l).length + nodes.length)
        ((nodes.map .node).foldl (World.receive m l) w) := by
    change EStateM.Result.ok (((nodes.map .node).foldl (World.receive m l) w).store.items l).length
      _ = _
    rw [World.items_foldl_receive inStore, List.length_append, List.length_map]
  refine (bind_of_ok counted).trans ?_
  refine (bind_of_ok (record_eq _ _ _)).trans ?_
  rw [World.journal_foldl_receive, List.length_map]
  rfl

theorem pop_nil (program : w.store.shape m = .program strict (.list l))
    (own : (w.store.node m).override? "pop" = none) (h : w.store.items l = []) :
    pop (.node m) w = .ok .null w := by
  refine (bind_of_ok (elementsFor_program program own)).trans ?_
  change (if !w.store.isTrue (.list l) then _ else _ : Action Value) w = _
  simp only [Store.isTrue, h]
  rfl

theorem pop_concat {rest : List Value} {v : Value}
    (program : w.store.shape m = .program strict (.list l))
    (own : (w.store.node m).override? "pop" = none) (inStore : l.index < w.store.lists.size)
    (h : w.store.items l = rest ++ [v]) :
    pop (.node m) w =
      .ok v { w with
        store := w.store.setItems l rest
        journal := w.journal ++ [⟨.debug, "Popped " ++ w.store.typeName v ++
          ", module now holds " ++ rest.length.repr⟩] } := by
  refine (bind_of_ok (elementsFor_program program own)).trans ?_
  have full : (!w.store.isTrue (.list l)) = false := by simp [Store.isTrue, h]
  change (if !w.store.isTrue (.list l) then _ else _ : Action Value) w = _
  rw [full]
  refine (bind_of_ok (removeLast_concat h)).trans ?_
  have counted : length (.list l) { w with store := w.store.setItems l rest } =
      .ok rest.length { w with store := w.store.setItems l rest } := by
    change EStateM.Result.ok ((w.store.setItems l rest).items l).length _ = _
    rw [Store.items_setItems inStore]
  refine (bind_of_ok counted).trans ?_
  have named : (w.store.setItems l rest).typeName v = w.store.typeName v := by
    cases v <;> rfl
  refine (bind_of_ok (store_eq _)).trans ?_
  refine (bind_of_ok (record_eq _ _ _)).trans ?_
  rw [named]
  rfl

end Action

/-- The list holds what is on the stack, nothing of which leads to it, and else all is as it was
at the start, parents apart. -/
structure Store.Follows (s s' : Store) (l : ListId) (stack : List Value) : Prop where
  spares : s.Spares s' l
  contents : s'.items l = stack
  apart : ∀ v ∈ stack, ¬ s.Reachable [v] (.list l)

/-- What calls have made of a program, and what the next one will. -/
structure StackLaws (w₀ w : World) (m : NodeId) (l : ListId) (strict : Value)
    (stack : List Value) : Prop where
  contents : w.store.items l = stack
  lists : ∀ k ≠ l, w.store.items k = w₀.store.items k
  fields : ∀ id, w.store.shape id = w₀.store.shape id
  attributes : ∀ id, ∀ member ≠ Node.linkName,
    (w.store.node id).override? member = (w₀.store.node id).override? member
  /-- The texts of the elements are those they had at the start. -/
  rendering : ∀ settings texts,
    List.Forall₂ (fun v text => w₀.store.renderText (w₀.store.render settings) v = .ok text)
      stack texts →
    w.store.render settings m = w.store.programText settings strict texts
  push : ∀ nodes : List NodeId, (∀ n ∈ nodes, w₀.store.IsStackable l n) →
    ∃ w', Action.push (.node m) (nodes.map .node) w = .ok (stack.length + nodes.length) w' ∧
      w'.store.items l = stack ++ nodes.map .node ∧
      w'.journal = w.journal ++ [⟨.debug, "Pushed " ++ nodes.length.repr ++
        " node(s), module now holds " ++ (stack.length + nodes.length).repr⟩] ∧
      (∀ id, w'.store.node id =
        if id ∈ nodes then (w.store.node id).setParent (some m) else w.store.node id) ∧
      ∀ n ∈ nodes, ∀ roots, w'.store.Reachable roots (.node m) →
        Action.readField roots (.node n) "parent" w' = .ok (.node m) w'
  pop_nil : stack = [] → Action.pop (.node m) w = .ok .null w
  pop_concat : ∀ rest v, stack = rest ++ [v] →
    ∃ w', Action.pop (.node m) w = .ok v w' ∧ w'.store.items l = rest ∧
      w'.journal = w.journal ++ [⟨.debug, "Popped " ++ w.store.typeName v ++
        ", module now holds " ++ rest.length.repr⟩] ∧
      ∀ id, w'.store.node id = w.store.node id

section
variable {w₀ w : World} {m : NodeId} {l : ListId} {strict : Value} {stack : List Value}

theorem Store.IsStack.follows (start : w₀.store.IsStack m l strict) :
    w₀.store.Follows w₀.store l (w₀.store.items l) :=
  ⟨.refl _ _, rfl, start.apart⟩

namespace Store.Follows

/-- The program can be called as at the start. -/
theorem own (h : w₀.store.Follows w.store l stack) (start : w₀.store.IsStack m l strict)
    {member : String} (hm : member ∈ ["push", "pop", "become_parent_of", "serialize"]) :
    (w.store.node m).override? member = none := by
  have other : member ≠ Node.linkName := by
    rintro rfl
    simp [Node.linkName] at hm
  rw [h.spares.override? m other]
  exact start.plain member hm

theorem program (h : w₀.store.Follows w.store l stack) (start : w₀.store.IsStack m l strict) :
    w.store.shape m = .program strict (.list l) :=
  (h.spares.shape m).trans start.program

theorem inStore (h : w₀.store.Follows w.store l stack) (start : w₀.store.IsStack m l strict) :
    l.index < w.store.lists.size :=
  h.spares.lists ▸ start.inStore

theorem push_eq (h : w₀.store.Follows w.store l stack) (start : w₀.store.IsStack m l strict)
    {nodes : List NodeId} (allowed : ∀ n ∈ nodes, w₀.store.IsStackable l n) :
    Action.push (.node m) (nodes.map .node) w =
      .ok (stack.length + nodes.length)
        { (nodes.map .node).foldl (World.receive m l) w with
          journal := w.journal ++ [⟨.debug, "Pushed " ++ nodes.length.repr ++
            " node(s), module now holds " ++ (stack.length + nodes.length).repr⟩] } := by
  have free (n : NodeId) (hn : n ∈ nodes) : (w.store.node n).override? "set_parent" = none := by
    rw [h.spares.override? n (by decide)]
    exact (allowed n hn).plain
  rw [← h.contents]
  refine Action.push_nodes (h.program start) (fun member hm => h.own start ?_) (h.inStore start)
    free
  simp only [List.mem_cons, List.not_mem_nil, or_false] at hm ⊢
  tauto

theorem pop_eq_nil (h : w₀.store.Follows w.store l []) (start : w₀.store.IsStack m l strict) :
    Action.pop (.node m) w = .ok .null w :=
  Action.pop_nil (h.program start) (h.own start (by simp)) h.contents

theorem pop_eq_concat {rest : List Value} {v : Value}
    (h : w₀.store.Follows w.store l (rest ++ [v])) (start : w₀.store.IsStack m l strict) :
    Action.pop (.node m) w =
      .ok v { w with
        store := w.store.setItems l rest
        journal := w.journal ++ [⟨.debug, "Popped " ++ w.store.typeName v ++
          ", module now holds " ++ rest.length.repr⟩] } :=
  Action.pop_concat (h.program start) (h.own start (by simp)) (h.inStore start) h.contents

/-- One call on the program is one on the stack. -/
theorem apply (h : w₀.store.Follows w.store l stack) (start : w₀.store.IsStack m l strict)
    {call : StackCall} (allowed : ∀ n ∈ call.pushed, w₀.store.IsStackable l n) :
    w₀.store.Follows (call.apply m w).store l (call.onStack stack) := by
  cases call with
  | push nodes =>
      change ∀ n ∈ nodes, w₀.store.IsStackable l n at allowed
      rw [StackCall.apply, Action.after_of_ok (h.push_eq start allowed)]
      refine ⟨h.spares.trans (World.foldl_receive_spares m l _ w), ?_, fun v hv => ?_⟩
      · rw [← h.contents]
        exact World.items_foldl_receive (h.inStore start)
      · rcases List.mem_append.mp hv with hv | hv
        · exact h.apart v hv
        · obtain ⟨n, hn, rfl⟩ := List.mem_map.mp hv
          exact (allowed n hn).apart
  | pop =>
      rcases List.eq_nil_or_concat stack with rfl | ⟨rest, v, rfl⟩
      · rw [StackCall.apply, Action.after_of_ok (h.pop_eq_nil start)]
        exact h
      · rw [List.concat_eq_append] at h ⊢
        rw [StackCall.apply, Action.after_of_ok (h.pop_eq_concat start), StackCall.onStack,
          List.dropLast_concat]
        exact ⟨h.spares.trans (.setItems _ l rest), Store.items_setItems (h.inStore start) rest,
          fun u hu => h.apart u (by simp [hu])⟩

theorem foldl_apply (start : w₀.store.IsStack m l strict) {calls : List StackCall}
    (h : w₀.store.Follows w.store l stack)
    (allowed : ∀ call ∈ calls, ∀ n ∈ call.pushed, w₀.store.IsStackable l n) :
    w₀.store.Follows (calls.foldl (StackCall.apply m) w).store l
      (calls.foldl StackCall.onStack stack) := by
  induction calls generalizing w stack with
  | nil => exact h
  | cons call calls ih =>
      exact ih (h.apply start (allowed call (by simp))) fun c hc => allowed c (by simp [hc])

/-- The elements have kept their texts, so the program has theirs. -/
theorem render (h : w₀.store.Follows w.store l stack) (start : w₀.store.IsStack m l strict)
    {settings : Settings} {texts : List String}
    (rendered : List.Forall₂
      (fun v text => w₀.store.renderText (w₀.store.render settings) v = .ok text) stack texts) :
    w.store.render settings m = w.store.programText settings strict texts := by
  have texts_now : List.Forall₂
      (fun v text => w.store.renderText (w.store.render settings) v = .ok text) stack texts := by
    refine ((List.forall₂_and_left _ _).mpr ⟨h.apart, rendered⟩).imp fun v text ⟨apart, ht⟩ => ?_
    cases v with
    | node n =>
        rw [Store.renderText, Store.renderValue, h.spares.render apart]
        cases hr : w₀.store.render settings n with
        | ok r =>
            rw [Store.renderText, Store.renderValue, hr] at ht
            cases r with
            | text t origin => exact ht
            | null | bool _ | int _ _ | real _ _ | list _ | node _ => cases ht
        | error fault =>
            rw [Store.renderText, Store.renderValue, hr] at ht
            cases ht
    | null | bool _ | int _ _ | real _ _ | text _ _ | list _ => cases ht
  have parts :
      (w.store.items l).mapM (w.store.renderText (w.store.render settings)) = .ok texts := by
    rw [h.contents, mapM_of_forall₂ (g := id) texts_now, List.map_id]
  rw [Store.render_eq, h.own start (by simp), h.program start]
  simp only [Option.isSome_none, Bool.false_eq_true, if_false, Shape.render, Store.iterate, ok_bind,
    parts]
  rfl

/-- What the calls so far have led to, and what the next call does. -/
theorem laws (h : w₀.store.Follows w.store l stack) (start : w₀.store.IsStack m l strict) :
    StackLaws w₀ w m l strict stack where
  contents := h.contents
  lists k hk := h.spares.retains (.list k) (by simpa using hk)
  fields := h.spares.shape
  attributes id _ hm := h.spares.override? id hm
  rendering _ _ rendered := h.render start rendered
  push nodes allowed := by
    have inStore (n : NodeId) (hn : n ∈ nodes) : n.index < w.store.nodes.size :=
      h.spares.nodes ▸ (allowed n hn).inStore
    have linked (id : NodeId) :
        ((nodes.map .node).foldl (World.receive m l) w).store.node id =
          if id ∈ nodes then (w.store.node id).setParent (some m) else w.store.node id := by
      rw [World.node_foldl_receive fun mem => inStore id (by simpa using mem)]
      simp
    refine ⟨_, h.push_eq start allowed, ?_, rfl, linked, fun n hn roots reached => ?_⟩
    · rw [← h.contents]
      exact World.items_foldl_receive (h.inStore start)
    · have node := (linked n).trans (if_pos hn)
      rw [Action.readField_parent (by rw [node, Node.override?_setParent_linkName]),
        Store.parentAmong_eq_some_iff.mpr ⟨by rw [node]; rfl, reached⟩]
      rfl
  pop_nil none := by
    subst none
    exact h.pop_eq_nil start
  pop_concat rest v last := by
    subst last
    exact ⟨_, h.pop_eq_concat start, Store.items_setItems (h.inStore start) rest, rfl, fun _ => rfl⟩

end Store.Follows

/-- A program is a stack over whole runs of calls. -/
theorem stackLaws_of_calls (start : w₀.store.IsStack m l strict) (calls : List StackCall)
    (allowed : ∀ call ∈ calls, ∀ n ∈ call.pushed, w₀.store.IsStackable l n) :
    StackLaws w₀ (calls.foldl (StackCall.apply m) w₀) m l strict
      (calls.foldl StackCall.onStack (w₀.store.items l)) :=
  (start.follows.foldl_apply start allowed).laws start

end

namespace World

/-- A program with one element, and an empty statement that is in no program. -/
def beforeCalls : World :=
  { World.empty with
    store :=
      ⟨#[.ofShape (.program (.bool false) (.list ⟨0⟩)), .ofShape (.boolean (.bool true)),
        .ofShape .empty], #[[.node ⟨1⟩]]⟩ }

theorem beforeCalls_isStack : beforeCalls.store.IsStack ⟨0⟩ ⟨0⟩ (.bool false) where
  program := rfl
  inStore := by decide
  plain := by decide
  apart v hv reached := by
    have found : v = .node ⟨1⟩ := List.mem_singleton.mp hv
    subst found
    have mem : .list ⟨0⟩ ∈ [Value.node ⟨1⟩, .bool true] :=
      Store.mem_of_reachable (by simp) (by decide) reached
    simp at mem

theorem beforeCalls_laws :
    StackLaws beforeCalls ([.push [⟨2⟩, ⟨2⟩], .pop].foldl (StackCall.apply ⟨0⟩) beforeCalls) ⟨0⟩ ⟨0⟩
      (.bool false) [.node ⟨1⟩, .node ⟨2⟩] := by
  refine stackLaws_of_calls beforeCalls_isStack [.push [⟨2⟩, ⟨2⟩], .pop] fun call hcall n hn => ?_
  have same : n = ⟨2⟩ := by
    rcases List.mem_pair.mp hcall with rfl | rfl
    · simpa [StackCall.pushed] using hn
    · cases hn
  subst same
  refine ⟨by decide, rfl, fun reached => ?_⟩
  have mem : .list ⟨0⟩ ∈ [Value.node ⟨2⟩] :=
    Store.mem_of_reachable (by simp) (by decide) reached
  simp at mem

/-- An empty program on which something was set in the place of its push. -/
def blocked : World :=
  { World.empty with
    store := ⟨#[⟨.program (.bool true) (.list ⟨0⟩), none, [("push", .null)]⟩], #[[]]⟩ }

theorem not_push_blocked :
    blocked.store.shape ⟨0⟩ = .program (.bool true) (.list ⟨0⟩) ∧ blocked.store.items ⟨0⟩ = [] ∧
      Action.push (.node ⟨0⟩) [] blocked = .error (.notCallable "NoneType") blocked :=
  ⟨rfl, rfl, rfl⟩

end World
end ScriptGraph
