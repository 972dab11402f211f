import ScriptGraph.Proofs.Construction

/-!
Runs that build from values at hand. Lists and nodes are made, pushed, popped and adopted in
any order, and names come and go. As long as arguments have the types of their parameters, no
list is given to two nodes and nothing is pushed into what it leads to, every node that can be
reached has a rendering.
-/

namespace ScriptGraph

/-- What a run does next. Results are bound to the name that is given. -/
inductive Operation
  | makeList (name : String) (items : List Value)
  | construct (name : String) (kind : Kind) (args : Arguments)
  | push (target : Value) (nodes : List Value)
  | pop (target : Value) (name : Option String)
  | setParent (child parent : Value)
  | adopt (parent : NodeId) (child : Value)
  | bind (name : String) (v : Value)
  | unbind (name : String)

namespace Operation

def perform : Operation → Scripted Unit
  | makeList name items => do
    Scripted.bind name (.list (← Scripted.lift (Action.newList items)))
  | construct name kind args => do
    Scripted.bind name (.node (← Scripted.lift (Action.construct kind args)))
  | push target nodes => do
    let _ ← Scripted.lift (Action.push target nodes)
  | pop target name => do
    let last ← Scripted.lift (Action.pop target)
    if let some name := name then Scripted.bind name last
  | setParent child parent => Scripted.lift (Action.assignParent child parent)
  | adopt parent child => Scripted.lift (Action.adopt parent child)
  | bind name v => Scripted.bind name v
  | unbind name => modify fun σ => { σ with names := σ.names.unbind name }

end Operation

namespace Session

/-- Values are at hand that names lead to, and all that are not objects. -/
def AtHand (σ : Session) (v : Value) : Prop :=
  v.isHandle → σ.world.store.Reachable σ.roots v

/-- The session after an operation, whether it has succeeded or not. -/
def apply (σ : Session) (op : Operation) : Session :=
  match op.perform σ with
  | .ok _ σ' => σ'.collect
  | .error _ σ' => σ'.collect

/-- What an operation is given is at hand. Arguments have the types of their parameters, lists
among them belong to no node, and a program is only pushed into by what does not lead to it. -/
def Allows (σ : Session) : Operation → Prop
  | .makeList _ items => ∀ v ∈ items, σ.AtHand v
  | .construct _ kind args => ∀ assigned, args.assign kind.signature = .ok assigned →
    Provided σ.world.store σ.roots kind assigned
  | .push target nodes => σ.AtHand target ∧
    ∀ v ∈ nodes, v.isNode ∧ σ.AtHand v ∧ ¬ σ.world.store.Reachable [v] target
  | .pop target _ => σ.AtHand target
  | .setParent child parent => σ.AtHand child ∧ σ.AtHand parent
  | .adopt parent child => σ.AtHand (.node parent) ∧ σ.AtHand child
  | .bind _ v => σ.AtHand v
  | .unbind _ => True

inductive Reached : Session → Prop
  | start : Reached .start
  | step {σ : Session} {op : Operation} : Reached σ → σ.Allows op → Reached (σ.apply op)

/-- Everything that the session keeps alive is in order. -/
def Healthy (σ : Session) : Prop :=
  σ.world.store.Healthy σ.roots

theorem healthy_start : start.Healthy := by
  have nothing {v : Value} (h : Store.Reachable .empty [] v) : False :=
    List.not_mem_nil (Store.mem_of_reachable (fun _ hr => hr) (by simp) h)
  have empty : Store.empty.Healthy [] :=
    ⟨fun _ => rfl, fun h => (nothing h).elim, fun h => (nothing h).elim,
      fun h => (nothing h).elim, fun h => (nothing h).elim, fun h => (nothing h).elim⟩
  refine empty.weaken fun r hr handle => ?_
  have plain : ∀ r ∈ start.roots, r.isHandle = false := by decide
  rw [plain r hr] at handle
  cases handle

/-- Forgetting parents changes nothing else. -/
theorem Healthy.collect {σ : Session} (h : σ.Healthy) : σ.collect.Healthy :=
  (σ.world.store.carries_sweep σ.roots).healthy h

theorem Healthy.unbind {σ : Session} (h : σ.Healthy) (name : String) :
    Healthy { σ with names := σ.names.unbind name } := by
  refine Store.Healthy.weaken h fun r hr _ => .root ?_
  simp only [roots, List.mem_append, Bindings.values, Bindings.unbind] at hr ⊢
  refine hr.imp_right fun hr => ?_
  obtain ⟨entry, mem, rfl⟩ := List.mem_map.mp hr
  exact List.mem_map_of_mem (List.mem_filter.mp mem).1

/-- What was at the roots for a moment can be bound to a name. -/
theorem healthy_bind {σ : Session} {v : Value} (h : σ.world.store.Healthy (v :: σ.roots))
    (name : String) : Healthy { σ with names := σ.names.bind name v } := by
  refine h.weaken fun r hr _ => .root ?_
  simp only [roots, List.mem_append, List.mem_cons, Bindings.values, Bindings.bind,
    List.map_cons, Bindings.unbind] at hr ⊢
  rcases hr with hr | rfl | hr
  · exact .inr (.inl hr)
  · exact .inl rfl
  · obtain ⟨entry, mem, rfl⟩ := List.mem_map.mp hr
    exact .inr (.inr (List.mem_map_of_mem (List.mem_filter.mp mem).1))

end Session

namespace Scripted
variable {α : Type} {σ : Session}

/-- What an action adds to the store can be held on to by the session. -/
theorem ends_lift {act : Action α} (added : α → List Value)
    (h : act.Ensures σ.world (fun a s => s.Healthy (added a ++ σ.roots))
      (fun s => s.Healthy σ.roots)) :
    Ends (Scripted.lift act) σ (fun a σ' => σ'.world.store.Healthy (added a ++ σ'.roots))
      Session.Healthy := by
  unfold Action.Ensures at h
  unfold Ends Scripted.lift
  cases hact : act σ.world with
  | ok a w =>
      rw [hact] at h
      exact h
  | error fault w =>
      rw [hact] at h
      exact h

/-- An action that leaves what is alive in order can be done at any time. -/
theorem ends_lift_plain {act : Action α}
    (h : act.Ensures σ.world (fun _ s => s.Healthy σ.roots) (fun s => s.Healthy σ.roots)) :
    Ends (Scripted.lift act) σ (fun _ σ' => σ'.Healthy) Session.Healthy :=
  ends_lift (fun _ => []) h

end Scripted

namespace Operation
variable {σ : Session}

theorem makeList_ends (h : σ.Healthy) {name : String} {items : List Value}
    (atHand : ∀ v ∈ items, σ.AtHand v) :
    Ends (makeList name items).perform σ (fun _ σ' => σ'.Healthy) Session.Healthy := by
  have made : (Action.newList items).Ensures σ.world
      (fun l s => s.Healthy (.list l :: σ.roots)) (fun s => s.Healthy σ.roots) := by
    have carried := σ.world.store.carries_addList items
    refine (carried.healthy h).cons_list (by simp [Store.addList, Store.nextList]) ?_
    intro v hv handle
    rw [Store.items_addList_nextList] at hv
    exact (carried.reachable_iff h).mpr (atHand v hv handle)
  exact (Scripted.ends_lift (fun l => [.list l]) made).bind fun _ _ h' =>
    Session.healthy_bind h' name

theorem construct_ends (h : σ.Healthy) {name : String} {kind : Kind} {args : Arguments}
    (provided : ∀ assigned, args.assign kind.signature = .ok assigned →
      Provided σ.world.store σ.roots kind assigned) :
    Ends (construct name kind args).perform σ (fun _ σ' => σ'.Healthy) Session.Healthy :=
  (Scripted.ends_lift (fun id => [.node id]) (Action.construct_healthy h provided)).bind
    fun _ _ h' => Session.healthy_bind h' name

theorem push_ends (h : σ.Healthy) {target : Value} {nodes : List Value}
    (atHand : σ.AtHand target)
    (hnodes : ∀ v ∈ nodes, v.isNode ∧ σ.AtHand v ∧ ¬ σ.world.store.Reachable [v] target) :
    Ends (push target nodes).perform σ (fun _ σ' => σ'.Healthy) Session.Healthy := by
  have pushable (m : NodeId) (hm : target = .node m) :
      Action.Pushable σ.world.store σ.roots m nodes := by
    intro v hv
    subst hm
    obtain ⟨isNode, reached, apart⟩ := hnodes v hv
    obtain ⟨n, rfl⟩ := Value.isNode_iff.mp isNode
    exact ⟨n, rfl, reached rfl, fun path => apart (Store.Reachable.path (.root (by simp)) path)⟩
  exact (Scripted.ends_lift_plain (Action.push_healthy h atHand pushable)).bind fun _ _ h' => h'

theorem pop_ends (h : σ.Healthy) {target : Value} {name : Option String}
    (atHand : σ.AtHand target) :
    Ends (pop target name).perform σ (fun _ σ' => σ'.Healthy) Session.Healthy := by
  have popped := Scripted.ends_lift (fun v => [v]) (Action.pop_healthy h atHand)
  refine popped.bind fun last σ' h' => ?_
  cases name with
  | none => exact h'.tail
  | some name => exact Session.healthy_bind h' name

/-- One step of a run leaves the session healthy, whatever it comes to. -/
theorem perform_ends (h : σ.Healthy) {op : Operation} (allowed : σ.Allows op) :
    Ends op.perform σ (fun _ σ' => σ'.Healthy) Session.Healthy := by
  cases op with
  | makeList name items => exact makeList_ends h allowed
  | construct name kind args => exact construct_ends h allowed
  | push target nodes => exact push_ends h allowed.1 allowed.2
  | pop target name => exact pop_ends h allowed
  | setParent child parent =>
      exact Scripted.ends_lift_plain ((Action.assignParent_carrying child parent).healthy h)
  | adopt parent child =>
      exact Scripted.ends_lift_plain ((Action.adopt_carrying parent child).healthy h)
  | bind name v =>
      refine Session.healthy_bind (Store.Healthy.weaken h fun r hr handle => ?_) name
      rcases List.mem_cons.mp hr with rfl | hr
      · exact allowed handle
      · exact .root hr
  | unbind name => exact h.unbind name

end Operation

namespace Session
variable {σ : Session}

theorem Healthy.apply (h : σ.Healthy) {op : Operation} (allowed : σ.Allows op) :
    (σ.apply op).Healthy := by
  have kept := Operation.perform_ends h allowed
  unfold Ends at kept
  unfold Session.apply
  cases hop : op.perform σ with
  | ok a σ' =>
      rw [hop] at kept
      exact kept.collect
  | error fault σ' =>
      rw [hop] at kept
      exact kept.collect

theorem Reached.healthy (h : σ.Reached) : σ.Healthy := by
  induction h with
  | start => exact healthy_start
  | step _ allowed ih => exact ih.apply allowed

/-- In every session that a run leads to, every node at hand is rendered, and its text is its
rendering. Only memory can set a limit. -/
theorem Reached.renders (h : σ.Reached) {id : NodeId}
    (hid : σ.world.store.Reachable σ.roots (.node id)) {settings : Settings} {width : Nat}
    {directive : String} (regular : settings.Regular width directive) :
    (∃ text origin, σ.world.store.render settings id = .ok (.text text origin) ∧
        σ.world.store.textOf settings (.node id) = .ok text) ∨
      ¬ settings.memory.holds width ∧ σ.world.store.render settings id = .error .noMemory ∧
        σ.world.store.textOf settings (.node id) = .error .noMemory := by
  have healthy : σ.world.store.Healthy σ.roots := h.healthy
  rcases Store.render_text_of_acyclicFrom regular (healthy.soundFrom hid)
    (healthy.acyclicFrom hid) with ⟨text, origin, rendered⟩ | ⟨short, fault⟩
  · refine .inl ⟨text, origin, rendered, ?_⟩
    rw [Store.textOf, Store.display, rendered]
    rfl
  · refine .inr ⟨short, fault, ?_⟩
    rw [Store.textOf, Store.display, fault]
    rfl

/-- A session in which a declaration of nothing has been made. -/
def declared : Session :=
  (start.apply (.makeList "l" [])).apply (.construct "v" .declaration ⟨[.list ⟨0⟩], []⟩)

theorem declared_reached : declared.Reached := by
  refine .step (.step .start (by simp [Allows])) fun assigned hassigned => ?_
  have given : assigned = [("declarators", .list ⟨0⟩)] := by
    cases hassigned
    rfl
  subst given
  refine ⟨fun {name v} hv _ => ?_, fun {name v} hv => ?_, fun {name l a} _ _ => ?_,
    fun {m v} hm => ?_⟩
  · cases List.mem_singleton.mp hv
    exact .root (by decide)
  · cases List.mem_singleton.mp hv
    decide
  · rw [Store.shape, Store.node_of_size_le (Nat.zero_le _)]
    exact List.not_mem_nil
  · simp at hm

/-- The declaration has been pushed into a program since. -/
def pushed : Session :=
  (declared.apply (.construct "m" .program ⟨[], []⟩)).apply (.push (.node ⟨1⟩) [.node ⟨0⟩])

theorem pushed_reached : pushed.Reached := by
  refine .step (.step declared_reached fun assigned hassigned => ?_) ⟨?_, ?_⟩
  · have given : assigned = [] := by
      cases hassigned
      rfl
    subst given
    refine ⟨?_, ?_, ?_, ?_⟩ <;> simp
  · exact fun _ => .root (by decide)
  · intro v hv
    cases List.mem_singleton.mp hv
    refine ⟨rfl, fun _ => .root (by decide), fun h => ?_⟩
    have found : Value.node ⟨1⟩ ∈ [Value.node ⟨0⟩, .list ⟨0⟩] :=
      Store.mem_of_reachable (by decide) (by decide) h
    simp at found

theorem pushed_renders : ∃ text origin,
    pushed.world.store.render .default ⟨1⟩ = .ok (.text text origin) ∧
      pushed.world.store.textOf .default (.node ⟨1⟩) = .ok text := by
  have reachable : pushed.world.store.Reachable pushed.roots (.node ⟨1⟩) := .root (by decide)
  exact (pushed_reached.renders reachable Settings.regular_default).resolve_right
    fun short => short.1 (by decide)

theorem not_text_of_reached :
    (Settings.ofWidth 36028797018963968).Regular 36028797018963968 "\"use strict\"" ∧
      declared.Reached ∧ declared.world.store.Reachable declared.roots (.node ⟨0⟩) ∧
      declared.world.store.render (.ofWidth 36028797018963968) ⟨0⟩ = .error .noMemory :=
  ⟨⟨rfl, by decide, rfl⟩, declared_reached, .root (by decide), by decide⟩

end Session
end ScriptGraph
