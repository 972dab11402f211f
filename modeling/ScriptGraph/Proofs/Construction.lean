import ScriptGraph.Proofs.Building

/-!
Construction from arguments of the types that the parameters are annotated with. What is
left out is replaced by new objects that hold nothing, so a new node holds what it was
given and such objects, and nothing that is in the store leads to it.
-/

namespace ScriptGraph

/-- Whether a value has the type that a parameter is annotated with; any node stands for a node
of any kind. The name and the parameters of a function may be null, too. -/
def Kind.accepts (s : Store) (kind : Kind) (name : String) (v : Value) : Bool :=
  match kind, name with
  | .program, "use_strict" => v.isBool
  | .program, "elements" => s.isListOf Value.isNode v
  | .boolean, "value" => v.isBool
  | .block, "statements" => v = .null || s.isListOf Value.isNode v
  | .conditional, "condition" => v.isNode
  | .conditional, "then_statement" => v = .null || v.isNode
  | .conditional, "else_statement" => v = .null || v.isNode
  | .caseGroup, "labels" => s.isListOf (fun v => v.isString || v.isNode) v
  | .caseGroup, "statements" => s.isListOf Value.isNode v
  | .switch, "discriminant" => v.isNode
  | .switch, "members" => v = .null || s.isListOf Value.isNode v
  | .declarator, "name" => v.isString
  | .declarator, "initializer" => v = .null || v.isNode
  | .declaration, "declarators" => s.isListOf Value.isNode v
  | .function, "name" => v = .null || v.isString
  | .function, "params" => v = .null || s.isListOf Value.isString v
  | .function, "body" => v = .null || v.isNode
  | _, "module" => v = .null || v.isNode
  | _, _ => false

/-- The fields have the types of the parameters that they are given by. -/
def Shape.isGiven (s : Store) : Shape → Bool
  | .function name params body =>
    (name = .null || name.isString) && (params = .null || s.isListOf Value.isString params) &&
      (body = .null || body.isNode)
  | shape => shape.isTyped s

/-- Required parameters are given where arguments are accepted. -/
theorem Arguments.exists_of_required {args : Arguments} {signature : Signature}
    {assigned : List (String × Value)} (h : args.assign signature = .ok assigned)
    {p : Parameter} (hp : p ∈ signature.params) (required : p.isRequired) :
    ∃ v, assigned.lookup p.name = some v := by
  have sound : args.fault? signature = none := by
    unfold assign at h
    split at h
    · cases h
    · assumption
  rw [assign, sound] at h
  cases h
  have missing : args.missing signature = [] := by
    unfold fault? at sound
    rw [if_neg (List.ne_nil_of_mem hp)] at sound
    split at sound
    · cases sound
    · split at sound
      · cases sound
      · split at sound
        · assumption
        · cases sound
  rw [← Option.isSome_iff_exists, List.lookup_append, Option.isSome_or, Bool.or_eq_true]
  obtain ⟨i, hi, rfl⟩ := List.mem_iff_getElem.mp hp
  by_cases given : i < args.positional.length
  · left
    rw [List.lookup_isSome_iff]
    refine ⟨(signature.params[i].name, args.positional[i]), ?_, by simp⟩
    have both : i < min signature.params.length args.positional.length := Nat.lt_min.mpr ⟨hi, given⟩
    exact List.mem_iff_getElem.mpr ⟨i, by simpa using both, by simp⟩
  · right
    have later : signature.params[i] ∈ signature.params.drop args.positional.length := by
      have back : args.positional.length + (i - args.positional.length) = i := by omega
      exact List.mem_iff_getElem.mpr
        ⟨i - args.positional.length, by simp only [List.length_drop]; omega, by simp [back]⟩
    by_contra absent
    have listed : signature.params[i].name ∈ args.missing signature := by
      refine List.mem_map_of_mem (List.mem_filter.mpr ⟨later, ?_⟩)
      rw [Bool.not_eq_true, Option.isSome_eq_false_iff] at absent
      simp only [required, absent, Bool.and_self]
    rw [missing] at listed
    cases listed

namespace Store
variable {s s₁ s' : Store} {roots : List Value}

/-- A new list without items or a new node without parts. -/
def Fresh (s s' : Store) : Value → Prop
  | .list l => s.lists.size ≤ l.index ∧ l.index < s'.lists.size ∧ s'.items l = []
  | .node id => s.nodes.size ≤ id.index ∧ id.index < s'.nodes.size ∧
    (s'.shape id = .empty ∨ s'.shape id = .block .null)
  | .null | .bool _ | .int .. | .real .. | .text .. => False

theorem Carries.size_le (h : Carries s s') :
    s.nodes.size ≤ s'.nodes.size ∧ s.lists.size ≤ s'.lists.size := by
  constructor
  · by_contra less
    have old : (NodeId.mk s'.nodes.size).index < s.nodes.size := Nat.lt_of_not_le less
    exact Nat.lt_irrefl _ (h.node old).1
  · by_contra less
    have old : (ListId.mk s'.lists.size).index < s.lists.size := Nat.lt_of_not_le less
    exact Nat.lt_irrefl _ (h.list old).1

theorem Fresh.of_carries {v : Value} (h : Carries s s₁) (k : Fresh s₁ s' v) : Fresh s s' v := by
  cases v with
  | list l => exact ⟨Nat.le_trans h.size_le.2 k.1, k.2⟩
  | node id => exact ⟨Nat.le_trans h.size_le.1 k.1, k.2⟩
  | null | bool _ | int _ _ | real _ _ | text _ _ => exact k

theorem Fresh.carried {v : Value} (h : Fresh s s₁ v) (k : Carries s₁ s') : Fresh s s' v := by
  cases v with
  | list l => exact ⟨h.1, (k.list h.2.1).1, (k.list h.2.1).2.trans h.2.2⟩
  | node id =>
      have same := (k.node h.2.1).2
      exact ⟨h.1, (k.node h.2.1).1, by rw [same]; exact h.2.2⟩
  | null | bool _ | int _ _ | real _ _ | text _ _ => exact h

theorem Fresh.has {v : Value} (h : Fresh s s' v) : s'.Has v := by
  cases v with
  | list l => exact h.2.1
  | node id => exact h.2.1
  | null | bool _ | int _ _ | real _ _ | text _ _ => trivial

theorem isListOf_of_carries (h : Carries s s') {test : Value → Bool} {v : Value}
    (has : v.isHandle → s.Has v) (typed : s.isListOf test v) : s'.isListOf test v := by
  rw [isListOf_congr fun l e => ?_]
  · exact typed
  · subst e
    exact (h.list (has rfl)).2

theorem isListOf_of_items_nil {l : ListId} (h : s.items l = []) (test : Value → Bool) :
    s.isListOf test (.list l) := by
  simp [isListOf, h]

theorem isTyped_of_carries (h : Carries s s') {shape : Shape}
    (has : ∀ v ∈ shape.values, v.isHandle → s.Has v) (typed : shape.isTyped s) :
    shape.isTyped s' := by
  rw [isTyped_congr fun l hl => (h.list (has _ hl rfl)).2]
  exact typed

theorem fresh_nextNode (s : Store) {shape : Shape} (h : shape = .empty ∨ shape = .block .null) :
    Fresh s (s.addNode shape) (.node s.nextNode) := by
  refine ⟨Nat.le_refl _, by simp [nextNode, addNode], ?_⟩
  rw [Store.shape, node_addNode_nextNode]
  exact h

theorem fresh_nextList (s : Store) : Fresh s (s.addList []) (.list s.nextList) :=
  ⟨Nat.le_refl _, by simp [nextList, addList], items_addList_nextList s []⟩

end Store

namespace Shape
variable {w : World}

theorem complete_params_ensures {params : Value}
    (given : params = .null ∨ w.store.isListOf Value.isString params) :
    (if params = .null then .list <$> Action.newList [] else pure params : Action Value).Ensures w
      (fun v s => w.store.Carries s ∧ s.isListOf Value.isString v ∧
        (v = params ∨ Store.Fresh w.store s v))
      (fun s => w.store.Carries s) := by
  split
  case isTrue =>
    have fresh := w.store.fresh_nextList
    exact ⟨w.store.carries_addList _, Store.isListOf_of_items_nil fresh.2.2 _, .inr fresh⟩
  case isFalse present => exact ⟨.refl _, given.resolve_left present, .inl rfl⟩

theorem complete_body_ensures {body : Value} (given : body = .null ∨ body.isNode) :
    (if body = .null then .node <$> Action.newNode (block .null) else pure body :
        Action Value).Ensures w
      (fun v s => w.store.Carries s ∧ v.isNode ∧ (v = body ∨ Store.Fresh w.store s v))
      (fun s => w.store.Carries s) := by
  split
  case isTrue => exact ⟨w.store.carries_addNode _, rfl, .inr (w.store.fresh_nextNode (.inr rfl))⟩
  case isFalse present => exact ⟨.refl _, given.resolve_left present, .inl rfl⟩

theorem complete_function (name params body : Value) : (function name params body).complete =
    (if params = .null then .list <$> Action.newList [] else pure params) >>= fun params =>
      (if body = .null then .node <$> Action.newNode (block .null) else pure body) >>= fun body =>
        pure (function (if name = .null then .text "" else name) params body) := by
  by_cases hp : params = .null <;> by_cases hb : body = .null <;> simp only [complete, hp, hb] <;>
    rfl

/-- A shape completed by new objects without parts. -/
structure Completes (s s' : Store) (shape shape' : Shape) : Prop where
  carries : s.Carries s'
  typed : shape'.isTyped s'
  complete : shape'.isComplete
  holds {v : Value} : v ∈ shape'.values → v.isHandle → v ∈ shape.values ∨ Store.Fresh s s' v

theorem Completes.same {s : Store} {shape : Shape} (typed : shape.isTyped s)
    (complete : shape.isComplete) : Completes s s shape shape :=
  ⟨.refl _, typed, complete, fun hv _ => .inl hv⟩

theorem complete_conditional_ensures {condition consequent alternative : Value}
    (given : (conditional condition consequent alternative).isTyped w.store) :
    (conditional condition consequent alternative).complete.Ensures w
      (fun shape s => Completes w.store s (conditional condition consequent alternative) shape)
      (fun s => w.store.Carries s) := by
  simp only [isTyped, Bool.and_eq_true, Bool.or_eq_true, decide_eq_true_eq] at given
  obtain ⟨c, rfl⟩ := Value.isNode_iff.mp given.1.1
  simp only [complete]
  split
  case isTrue absent =>
    subst absent
    have fresh := w.store.fresh_nextNode (.inl rfl)
    refine ⟨w.store.carries_addNode _, by simpa [isTyped, Value.isNode] using given.2,
      by simp [isComplete], fun {v} hv handle => ?_⟩
    simp only [values, fields, List.map_cons, List.map_nil, List.mem_cons, List.not_mem_nil,
      or_false] at hv ⊢
    rcases hv with rfl | rfl | rfl
    · exact .inl (.inl rfl)
    · exact .inr fresh
    · exact .inl (.inr (.inr rfl))
  case isFalse present =>
    refine Completes.same ?_ (by simpa [isComplete] using present)
    simpa [isTyped, Value.isNode] using given

theorem complete_function_ensures {name params body : Value}
    (given : (function name params body).isGiven w.store)
    (has : params.isHandle → w.store.Has params) :
    (function name params body).complete.Ensures w
      (fun shape s => Completes w.store s (function name params body) shape)
      (fun s => w.store.Carries s) := by
  simp only [isGiven, Bool.and_eq_true, Bool.or_eq_true, decide_eq_true_eq] at given
  rw [complete_function]
  refine (complete_params_ensures given.1.2).bind fun params' w₁ h₁ => ?_
  obtain ⟨carried, strings, params_eq⟩ := h₁
  have later := (complete_body_ensures given.2 : Action.Ensures _ w₁ _ _)
  refine (later.mono (fun _ _ h => h) fun _ => carried.trans).bind fun body' w₂ h₂ => ?_
  obtain ⟨carried', node, body_eq⟩ := h₂
  have held : params'.isHandle → w₁.store.Has params' := by
    intro handle
    rcases params_eq with rfl | fresh
    · exact carried.has (has handle)
    · exact fresh.has
  refine ⟨carried.trans carried', ?_, ?_, fun {v} hv handle => ?_⟩
  · have text : (if name = .null then .text "" else name : Value).isString := by
      split
      · rfl
      · exact given.1.1.resolve_left (by assumption)
    simp [isTyped, text, node, Store.isListOf_of_carries carried' held strings]
  · obtain ⟨id, rfl⟩ := Value.isNode_iff.mp node
    rfl
  · simp only [values, fields, List.map_cons, List.map_nil, List.mem_cons, List.not_mem_nil,
      or_false] at hv ⊢
    rcases hv with rfl | rfl | rfl
    · split at handle
      · cases handle
      · exact .inl (.inl (by simp_all))
    · rcases params_eq with rfl | fresh
      · exact .inl (.inr (.inl rfl))
      · exact .inr (fresh.carried carried')
    · rcases body_eq with rfl | fresh
      · exact .inl (.inr (.inr rfl))
      · exact .inr (fresh.of_carries carried)

theorem complete_ensures {shape : Shape} (given : shape.isGiven w.store)
    (has : ∀ v ∈ shape.values, v.isHandle → w.store.Has v) :
    shape.complete.Ensures w (fun shape' s => Completes w.store s shape shape')
      (fun s => w.store.Carries s) := by
  cases shape with
  | bare | program _ _ | empty | block _ | caseGroup _ _ | switch _ _ | declarator _ _ =>
      exact Completes.same given rfl
  | boolean value =>
      obtain ⟨b, rfl⟩ := Value.isBool_iff.mp given
      exact Completes.same given rfl
  | declaration declarators =>
      refine Action.Ensures.store ?_
      split
      · exact Completes.same given rfl
      · exact Completes.same given rfl
  | conditional condition consequent alternative => exact complete_conditional_ensures given
  | function name params body =>
      exact complete_function_ensures given (has params (by simp [values, fields]))

end Shape

/-- A new node, typed and complete, that holds some of the given values and what is fresh. -/
structure Built (s s' : Store) (given : List Value) (id : NodeId) : Prop where
  carries : s.Carries s'
  new : s.nodes.size ≤ id.index
  inStore : id.index < s'.nodes.size
  typed : (s'.shape id).isTyped s'
  complete : (s'.shape id).isComplete
  holds {v : Value} : v ∈ (s'.shape id).values → v.isHandle → v ∈ given ∨ Store.Fresh s s' v

theorem Action.newNode_ensures (shape : Shape) (w : World) (failed : Store → Prop) :
    (newNode shape).Ensures w
      (fun id s => id = w.store.nextNode ∧ s = w.store.addNode shape) failed :=
  ⟨rfl, rfl⟩

theorem Action.assemble_ensures {shape : Shape} {w : World} (given : shape.isGiven w.store)
    (has : ∀ v ∈ shape.values, v.isHandle → w.store.Has v) :
    (assemble shape).Ensures w (fun id s => Built w.store s shape.values id)
      (fun s => w.store.Carries s) := by
  refine (Shape.complete_ensures given has).bind fun shape' w₁ h => ?_
  obtain ⟨carried, typed, complete, holds⟩ := h
  have held : ∀ v ∈ shape'.values, v.isHandle → w₁.store.Has v := by
    intro v hv handle
    rcases holds hv handle with old | fresh
    · exact carried.has (has v old handle)
    · exact fresh.has
  have added := w₁.store.carries_addNode shape'
  refine (newNode_ensures shape' w₁ _).bind fun id w₂ h => ?_
  obtain ⟨rfl, same⟩ := h
  have place : w₁.store.nextNode.index < w₂.store.nodes.size := by
    simp [same, Store.nextNode, Store.addNode]
  have there : w₂.store.shape w₁.store.nextNode = shape' := by
    rw [same, Store.shape, Store.node_addNode_nextNode]
    rfl
  rw [← same] at added
  have whole {s : Store} (c : w₂.store.Carries s) : w.store.Carries s :=
    carried.trans (added.trans c)
  refine ((adoptSlots_carrying _ _ w₂).mono (fun _ _ c => c) fun _ => whole).bind fun _ w₃ c => ?_
  have shape_eq : w₃.store.shape w₁.store.nextNode = shape' := (c.node place).2.trans there
  refine ⟨whole c, carried.size_le.1, (c.node place).1, ?_, ?_, fun {v} hv handle => ?_⟩
  · rw [shape_eq]
    exact Store.isTyped_of_carries (added.trans c) held typed
  · rw [shape_eq]
    exact complete
  · rw [shape_eq] at hv
    rcases holds hv handle with old | fresh
    · exact .inl old
    · exact .inr (fresh.carried (added.trans c))

/-- The argument under a name, or null. -/
abbrev argument (assigned : List (String × Value)) (name : String) : Value :=
  (assigned.lookup name).getD .null

theorem argument_mem {assigned : List (String × Value)} {name : String}
    (h : argument assigned name ≠ .null) : (name, argument assigned name) ∈ assigned := by
  cases found : assigned.lookup name with
  | none => simp [argument, found] at h
  | some v => simpa [argument, found] using mem_of_lookup found

/-- The arguments of a construction that become part of the new node. -/
def partsGiven (assigned : List (String × Value)) : List Value :=
  (assigned.filter (·.1 ≠ "module")).map Prod.snd

theorem mem_partsGiven {assigned : List (String × Value)} {name : String} {v : Value}
    (h : (name, v) ∈ assigned) (other : name ≠ "module") : v ∈ partsGiven assigned :=
  List.mem_map.mpr ⟨_, List.mem_filter.mpr ⟨h, by simpa using other⟩, rfl⟩

theorem argument_mem_partsGiven {assigned : List (String × Value)} {name : String}
    (other : name ≠ "module") (handle : (argument assigned name).isHandle) :
    argument assigned name ∈ partsGiven assigned := by
  refine mem_partsGiven (argument_mem fun e => ?_) other
  rw [e] at handle
  cases handle

/-- A draft of arguments that are accepted. -/
structure Drafted (s s' : Store) (assigned : List (String × Value)) (draft : Draft) : Prop where
  carries : s.Carries s'
  given : draft.shape.isGiven s'
  holds {v : Value} : v ∈ draft.shape.values → v.isHandle →
    v ∈ partsGiven assigned ∨ Store.Fresh s s' v
  owner : draft.owner = .null ∨ ("module", draft.owner) ∈ assigned

/-- Arguments have the types of their parameters, and the required ones are there. -/
structure Accepted (s : Store) (kind : Kind) (assigned : List (String × Value)) : Prop where
  typed {name : String} {v : Value} : (name, v) ∈ assigned → kind.accepts s name v
  required {p : Parameter} : p ∈ kind.parameters → p.isRequired →
    ∃ v, assigned.lookup p.name = some v

namespace Accepted
variable {s : Store} {kind : Kind} {assigned : List (String × Value)}

theorem needed (h : Accepted s kind assigned) (name : String)
    (needs : .required name ∈ kind.parameters) :
    kind.accepts s name (argument assigned name) := by
  obtain ⟨v, hv⟩ := h.required needs rfl
  have found : assigned.lookup name = some v := hv
  rw [argument, found]
  exact h.typed (mem_of_lookup found)

/-- What may be left out is accepted, whether it is or not. -/
theorem optional (h : Accepted s kind assigned) (name : String) (default : Value)
    (accepts : kind.accepts s name default) :
    kind.accepts s name ((assigned.lookup name).getD default) := by
  cases found : assigned.lookup name with
  | none => exact accepts
  | some v => exact h.typed (mem_of_lookup found)

end Accepted

theorem argument_owner (assigned : List (String × Value)) :
    argument assigned "module" = .null ∨ ("module", argument assigned "module") ∈ assigned := by
  by_cases absent : argument assigned "module" = .null
  · exact .inl absent
  · exact .inr (argument_mem absent)

/-- A draft whose fields are arguments. -/
theorem Drafted.ofNames {s : Store} {assigned : List (String × Value)} {draft : Draft}
    (names : List String) (values : draft.shape.values = names.map (argument assigned))
    (others : "module" ∉ names) (given : draft.shape.isGiven s)
    (owner : draft.owner = .null ∨ ("module", draft.owner) ∈ assigned) :
    Drafted s s assigned draft := by
  refine ⟨.refl _, given, fun {v} hv handle => ?_, owner⟩
  rw [values] at hv
  obtain ⟨name, mem, rfl⟩ := List.mem_map.mp hv
  exact .inl (argument_mem_partsGiven (fun e => others (e ▸ mem)) handle)

namespace Draft
variable {assigned : List (String × Value)} {w : World}

theorem listOrNew_ensures (assigned : List (String × Value)) (name : String) (w : World)
    {failed : Store → Prop} : (listOrNew assigned name).Ensures w
      (fun v s => w.store.Carries s ∧
        ((name, v) ∈ assigned ∧ s = w.store ∨ ∃ l, v = .list l ∧ Store.Fresh w.store s v))
      failed := by
  unfold listOrNew
  cases found : assigned.lookup name with
  | none => exact ⟨w.store.carries_addList _, .inr ⟨_, rfl, w.store.fresh_nextList⟩⟩
  | some v => exact ⟨.refl _, .inl ⟨mem_of_lookup found, rfl⟩⟩

theorem program_ensures (h : Accepted w.store .program assigned) :
    (ofArguments .program assigned).Ensures w (fun draft s => Drafted w.store s assigned draft)
      (fun s => w.store.Carries s) := by
  refine (listOrNew_ensures assigned "elements" w).bind fun elements w₁ found => ?_
  obtain ⟨carried, elements_eq⟩ := found
  have strict : ((assigned.lookup "use_strict").getD (.bool true)).isBool :=
    h.optional "use_strict" _ rfl
  have nodes : w₁.store.isListOf Value.isNode elements := by
    rcases elements_eq with ⟨given, same⟩ | ⟨l, rfl, fresh⟩
    · rw [same]
      exact h.typed given
    · exact Store.isListOf_of_items_nil fresh.2.2 _
  refine ⟨carried, by simp [Shape.isGiven, Shape.isTyped, strict, nodes],
    fun {v} hv handle => ?_, .inl rfl⟩
  simp only [Shape.values, Shape.fields, List.map_cons, List.map_nil, List.mem_cons,
    List.not_mem_nil, or_false] at hv
  rcases hv with rfl | rfl
  · obtain ⟨b, hb⟩ := Value.isBool_iff.mp strict
    rw [hb] at handle
    cases handle
  · rcases elements_eq with ⟨given, -⟩ | ⟨l, -, fresh⟩
    · exact .inl (mem_partsGiven given (by decide))
    · exact .inr fresh

theorem function_ensures (h : Accepted w.store .function assigned) :
    (ofArguments .function assigned).Ensures w (fun draft s => Drafted w.store s assigned draft)
      (fun s => w.store.Carries s) := by
  refine (listOrNew_ensures assigned "params" w).bind fun params w₁ found => ?_
  obtain ⟨carried, params_eq⟩ := found
  set name := (assigned.lookup "name").getD (.text "")
  have text : (name = .null || name.isString) = true := h.optional "name" (.text "") rfl
  have names : (params = .null || w₁.store.isListOf Value.isString params) = true := by
    rcases params_eq with ⟨given, same⟩ | ⟨l, rfl, fresh⟩
    · rw [same]
      exact h.typed given
    · simp [Store.isListOf_of_items_nil fresh.2.2]
  have body : (argument assigned "body" = .null || (argument assigned "body").isNode) = true :=
    h.optional "body" .null rfl
  refine ⟨carried, ?_, fun {v} hv handle => ?_, argument_owner assigned⟩
  · simp only [Shape.isGiven, text, names, body, Bool.and_self]
  · simp only [Shape.values, Shape.fields, List.map_cons, List.map_nil, List.mem_cons,
      List.not_mem_nil, or_false] at hv
    rcases hv with rfl | rfl | rfl
    · rcases Bool.or_eq_true_iff.mp text with e | string
      · rw [of_decide_eq_true e] at handle
        cases handle
      · obtain ⟨text, origin, e⟩ := Value.isString_iff.mp string
        rw [e] at handle
        cases handle
    · rcases params_eq with ⟨given, -⟩ | ⟨l, -, fresh⟩
      · exact .inl (mem_partsGiven given (by decide))
      · exact .inr fresh
    · exact .inl (argument_mem_partsGiven (by decide) handle)

theorem ofArguments_ensures {kind : Kind} (h : Accepted w.store kind assigned) :
    (ofArguments kind assigned).Ensures w (fun draft s => Drafted w.store s assigned draft)
      (fun s => w.store.Carries s) := by
  have owner := argument_owner assigned
  cases kind with
  | bare => exact .ofNames [] rfl (by simp) rfl (.inl rfl)
  | program => exact program_ensures h
  | empty => exact .ofNames [] rfl (by simp) rfl owner
  | boolean => exact .ofNames ["value"] rfl (by decide) (h.needed "value" (by decide)) owner
  | block =>
      exact .ofNames ["statements"] rfl (by decide) (h.optional "statements" .null rfl) owner
  | conditional =>
      refine .ofNames ["condition", "then_statement", "else_statement"] rfl (by decide) ?_ owner
      have condition : (argument assigned "condition").isNode := h.needed "condition" (by decide)
      refine Bool.and_eq_true_iff.mpr ⟨Bool.and_eq_true_iff.mpr ⟨condition, ?_⟩, ?_⟩
      · exact h.optional "then_statement" .null rfl
      · exact h.optional "else_statement" .null rfl
  | caseGroup =>
      refine .ofNames ["labels", "statements"] rfl (by decide) ?_ (.inl rfl)
      exact Bool.and_eq_true_iff.mpr
        ⟨h.needed "labels" (by decide), h.needed "statements" (by decide)⟩
  | switch =>
      refine .ofNames ["discriminant", "members"] rfl (by decide) ?_ owner
      exact Bool.and_eq_true_iff.mpr
        ⟨h.needed "discriminant" (by decide), h.optional "members" .null rfl⟩
  | declarator =>
      refine .ofNames ["name", "initializer"] rfl (by decide) ?_ (.inl rfl)
      exact Bool.and_eq_true_iff.mpr
        ⟨h.needed "name" (by decide), h.optional "initializer" .null rfl⟩
  | declaration =>
      exact .ofNames ["declarators"] rfl (by decide) (h.needed "declarators" (by decide)) owner
  | function => exact function_ensures h

end Draft

namespace Store
variable {s s' : Store} {roots : List Value}

/-- Nothing can be reached from what is fresh. -/
theorem Fresh.not_mem_successors {u v : Value} (h : Fresh s s' u) (hs : s'.Healthy roots)
    (handle : v.isHandle) : v ∉ s'.successors u := by
  intro hv
  cases u with
  | list l =>
      rw [successors, h.2.2] at hv
      cases hv
  | node id =>
      simp only [successors, Node.held, hs.plain, List.append_nil] at hv
      rcases h.2.2 with e | e
      · simp only [shape] at e
        rw [e] at hv
        cases hv
      · simp only [shape] at e
        rw [e] at hv
        obtain rfl := List.mem_singleton.mp hv
        cases handle
  | null | bool _ | int _ _ | real _ _ | text _ _ => cases h

theorem Fresh.not_edge {a b : NodeId} (h : Fresh s s' (.node a)) (hs : s'.Healthy roots) :
    ¬ s'.Edge a b := by
  intro edge
  rcases mem_values_of_mem_parts edge with hv | ⟨l, hl, -⟩
  · exact h.not_mem_successors hs rfl (mem_successors_of_mem_values hv)
  · exact h.not_mem_successors hs rfl (mem_successors_of_mem_values hl)

theorem Healthy.append_fresh (h : s'.Healthy roots) {vs : List Value}
    (hvs : ∀ v ∈ vs, Fresh s s' v) : s'.Healthy (vs ++ roots) := by
  induction vs with
  | nil => exact h
  | cons v vs ih =>
      have rest := ih fun u hu => hvs u (by simp [hu])
      have fresh := hvs v (by simp)
      cases v with
      | list l => exact rest.cons_list fresh.2.1 (by simp [fresh.2.2])
      | node id =>
          have none (v : Value) (hv : v ∈ (s'.shape id).values) : ¬ v.isHandle := fun handle =>
            fresh.not_mem_successors rest handle (mem_successors_of_mem_values hv)
          refine rest.cons_node fresh.2.1 (fun v hv handle => absurd handle (none v hv)) ?_ ?_
            (fun _ _ _ hl _ => absurd rfl (none _ hl))
          · rcases fresh.2.2 with e | e <;> rw [e] <;> rfl
          · rcases fresh.2.2 with e | e <;> rw [e] <;> rfl
      | null | bool _ | int _ _ | real _ _ | text _ _ => cases fresh

theorem reachable_append_fresh (h : s'.Healthy roots) {vs : List Value}
    (hvs : ∀ v ∈ vs, Fresh s s' v) {v : Value} (hv : s'.Reachable (vs ++ roots) v)
    (handle : v.isHandle) : v ∈ vs ∨ s'.Reachable roots v := by
  induction hv with
  | root hv =>
      rcases List.mem_append.mp hv with hv | hv
      · exact .inl hv
      · exact .inr (.root hv)
  | step _ hv ih =>
      rcases ih (isHandle_of_mem_successors hv) with hu | hu
      · exact absurd hv ((hvs _ hu).not_mem_successors h handle)
      · exact .inr (.step hu hv)

end Store

namespace Built
variable {s s' : Store} {given roots : List Value} {id : NodeId}
variable (b : Built s s' given id) (hs : s.Healthy roots)
variable (reach : ∀ v ∈ given, v.isHandle → s.Reachable roots v)
include b hs reach

theorem healthy (unheld : ∀ l a, .list l ∈ given → s.Reachable roots (.node a) →
    .list l ∉ (s.shape a).values) : s'.Healthy (.node id :: roots) := by
  have kept := b.carries.healthy hs
  -- The new node is reached together with what was made for it.
  set fresh := (s'.shape id).values.filter fun v => v.isHandle && decide (v ∉ given) with def_fresh
  have isFresh : ∀ v ∈ fresh, Store.Fresh s s' v := by
    intro v hv
    simp only [def_fresh, List.mem_filter, Bool.and_eq_true, decide_eq_true_eq] at hv
    exact (b.holds hv.1 hv.2.1).resolve_left hv.2.2
  have whole : s'.Healthy (.node id :: (fresh ++ roots)) := by
    refine (kept.append_fresh isFresh).cons_node b.inStore (fun v hv handle => ?_) b.typed
      b.complete fun a l ha hl hl' => ?_
    · by_cases known : v ∈ given
      · refine Store.reachable_of_reachable
          ((b.carries.reachable_iff hs).mpr (reach v known handle)) (fun r hr _ => ?_) handle
        exact .root (by simp [hr])
      · refine .root (List.mem_append_left _ ?_)
        simp [def_fresh, hv, handle, known]
    · exfalso
      rcases Store.reachable_append_fresh kept isFresh ha rfl with ha | ha
      · exact (isFresh _ ha).not_mem_successors kept rfl (Store.mem_successors_of_mem_values hl')
      · have ha := (b.carries.reachable_iff hs).mp ha
        rw [(b.carries.node (hs.has ha rfl)).2] at hl'
        rcases b.holds hl rfl with known | new
        · exact unheld l a known ha hl'
        · exact Nat.not_lt_of_le new.1 (hs.has (ha.value hl') rfl)
  refine whole.weaken fun r hr _ => .root ?_
  rcases List.mem_cons.mp hr with rfl | hr
  · simp
  · simp [hr]

theorem not_path {m : NodeId} (hm : s.Reachable roots (.node m))
    (apart : ∀ v ∈ given, ¬ s.Reachable [v] (.node m)) :
    ¬ Relation.ReflTransGen s'.Edge id m := by
  have old : m.index < s.nodes.size := hs.has hm rfl
  have kept := b.carries.healthy hs
  -- A way to the program ends in the old store, so it starts there.
  have blocked {u : Value} {n : NodeId} (hu : u ∈ given) (reached : s.Reachable roots (.node n))
      (way : s.Reachable [u] (.node n)) : ¬ Relation.ReflTransGen s'.Edge n m :=
    fun path => apart u hu (way.path (b.carries.path hs reached path))
  intro path
  rcases Relation.ReflTransGen.cases_head path with rfl | ⟨n, edge, path⟩
  · exact Nat.not_lt_of_le b.new old
  · rcases Store.mem_values_of_mem_parts edge with hv | ⟨l, hl, hv⟩
    · rcases b.holds hv rfl with known | new
      · exact blocked known (reach _ known rfl) (.root (by simp)) path
      · rcases Relation.ReflTransGen.cases_head path with rfl | ⟨k, edge, -⟩
        · exact Nat.not_lt_of_le new.1 old
        · exact new.not_edge kept edge
    · rcases b.holds hl rfl with known | new
      · have held := reach _ known rfl
        rw [(b.carries.list (hs.has held rfl)).2] at hv
        have way : s.Reachable [.list l] (.list l) := .root (by simp)
        exact blocked known (.step held hv) (.step way hv) path
      · rw [new.2.2] at hv
        cases hv

end Built

/-- What construction is given: values that are at hand, of the types of the parameters, lists
that no node holds, and a program that none of the other values leads to. -/
structure Provided (s : Store) (roots : List Value) (kind : Kind)
    (assigned : List (String × Value)) : Prop where
  reachable {name : String} {v : Value} : (name, v) ∈ assigned → v.isHandle → s.Reachable roots v
  accepted {name : String} {v : Value} : (name, v) ∈ assigned → kind.accepts s name v
  unheld {name : String} {l : ListId} {a : NodeId} : (name, .list l) ∈ assigned →
    s.Reachable roots (.node a) → .list l ∉ (s.shape a).values
  apart {m : NodeId} {v : Value} : ("module", .node m) ∈ assigned → v ∈ partsGiven assigned →
    ¬ s.Reachable [v] (.node m)

/-- What was built from a draft was built from the arguments. -/
theorem Drafted.built {s s₁ s' : Store} {assigned : List (String × Value)} {draft : Draft}
    {id : NodeId} (d : Drafted s s₁ assigned draft) (b : Built s₁ s' draft.shape.values id) :
    Built s s' (partsGiven assigned) id where
  carries := d.carries.trans b.carries
  new := Nat.le_trans d.carries.size_le.1 b.new
  inStore := b.inStore
  typed := b.typed
  complete := b.complete
  holds hv handle := by
    rcases b.holds hv handle with hv | fresh
    · exact (d.holds hv handle).imp_right fun fresh => fresh.carried b.carries
    · exact .inr (fresh.of_carries d.carries)

theorem Provided.owner {s : Store} {roots : List Value} {kind : Kind}
    {assigned : List (String × Value)} (p : Provided s roots kind assigned) {owner : Value}
    (h : owner = .null ∨ ("module", owner) ∈ assigned) :
    owner = .null ∨ ∃ m, owner = .node m ∧ s.Reachable roots owner ∧
      ∀ v ∈ partsGiven assigned, ¬ s.Reachable [v] (.node m) := by
  by_cases absent : owner = .null
  · exact .inl absent
  · have given := h.resolve_left absent
    have accepted : (owner = .null || owner.isNode) = true := by
      cases kind <;> exact p.accepted given
    obtain ⟨m, rfl⟩ := Value.isNode_iff.mp (by simpa [absent] using accepted)
    exact .inr ⟨m, rfl, p.reachable given rfl, fun v hv => p.apart given hv⟩

namespace Action
variable {roots : List Value} {w : World}

theorem register_healthy {s : Store} {given : List Value} {owner : Value} {id : NodeId}
    (b : Built s w.store given id) (hs : s.Healthy roots)
    (reach : ∀ v ∈ given, v.isHandle → s.Reachable roots v)
    (healthy : w.store.Healthy (.node id :: roots))
    (known : owner = .null ∨ ∃ m, owner = .node m ∧ s.Reachable roots owner ∧
      ∀ v ∈ given, ¬ s.Reachable [v] (.node m)) :
    (register owner id).Ensures w (fun _ s => s.Healthy (.node id :: roots))
      (fun s => s.Healthy (.node id :: roots)) := by
  unfold register
  rcases known with rfl | ⟨m, rfl, reached, apart⟩
  · exact healthy
  · have target : w.store.Reachable (.node id :: roots) (.node m) :=
      Store.reachable_of_reachable ((b.carries.reachable_iff hs).mpr reached)
        (fun r hr _ => .root (by simp [hr])) rfl
    have pushable : Pushable w.store (.node id :: roots) m [.node id] := by
      intro v hv
      obtain rfl := List.mem_singleton.mp hv
      exact ⟨id, rfl, .root (by simp), b.not_path hs reach reached apart⟩
    refine (push_healthy healthy (fun _ => target) fun n e => ?_).bind fun _ _ h => h
    cases e
    exact pushable

theorem construct_healthy {kind : Kind} {args : Arguments} (hs : w.store.Healthy roots)
    (provided : ∀ assigned, args.assign kind.signature = .ok assigned →
      Provided w.store roots kind assigned) :
    (construct kind args).Ensures w (fun id s => s.Healthy (.node id :: roots))
      (fun s => s.Healthy roots) := by
  unfold construct
  cases assigns : args.assign kind.signature with
  | error fault => exact hs
  | ok assigned =>
      have p := provided assigned assigns
      have part {v : Value} (hv : v ∈ partsGiven assigned) : ∃ name, (name, v) ∈ assigned := by
        obtain ⟨⟨name, _⟩, hmem, rfl⟩ := List.mem_map.mp hv
        exact ⟨name, (List.mem_filter.mp hmem).1⟩
      have accepted : Accepted w.store kind assigned :=
        ⟨p.accepted, fun hp required => Arguments.exists_of_required assigns hp required⟩
      have drafted := Draft.ofArguments_ensures accepted
      refine (drafted.mono (fun _ _ d => d) fun _ c => c.healthy hs).bind fun draft w₁ d => ?_
      have has : ∀ v ∈ draft.shape.values, v.isHandle → w₁.store.Has v := by
        intro v hv handle
        rcases d.holds hv handle with given | fresh
        · obtain ⟨name, given⟩ := part given
          exact d.carries.has (hs.has (p.reachable given handle) handle)
        · exact fresh.has
      have assembled := (assemble_ensures d.given has).mono (fun _ _ b => d.built b)
        fun _ c => (d.carries.trans c).healthy hs
      refine assembled.bind fun id w₂ b => ?_
      have reach : ∀ v ∈ partsGiven assigned, v.isHandle → w.store.Reachable roots v := by
        intro v hv handle
        obtain ⟨name, given⟩ := part hv
        exact p.reachable given handle
      have healthy : w₂.store.Healthy (.node id :: roots) := by
        refine b.healthy hs reach fun l a hl ha => ?_
        obtain ⟨name, given⟩ := part hl
        exact p.unheld given ha
      have registered := (register_healthy b hs reach healthy (p.owner d.owner)).mono
        (fun _ _ h => h) fun _ h => h.tail
      exact registered.bind fun _ _ h => h

end Action
end ScriptGraph
