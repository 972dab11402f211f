import ScriptGraph.Proofs.Construction

/-!
Values on their way through a construction. Whatever is said of actions by the values that they
are given and those that they result in, it holds of constructions if steps pass it on: a new
node holds nothing but arguments and what was made for it.
-/

namespace ScriptGraph

/-- The values that are looked at for children. -/
def Slot.value : Slot → Value
  | .one v | .every v | .nodesAmong v => v

/-- All children are found in fields. -/
theorem Shape.mem_values_of_mem_slots {shape : Shape} {v : Value}
    (h : v ∈ shape.slots.map Slot.value) : v ∈ shape.values := by
  cases shape with
  | bare | empty | boolean _ => cases h
  | block statements | switch _ statements =>
      simp only [slots] at h
      split at h <;> simp_all [Shape.values, Shape.fields, Slot.value]
  | program _ _ | conditional _ _ _ | caseGroup _ _ | declarator _ _ | declaration _
  | function _ _ _ => simp_all [slots, Shape.values, Shape.fields, Slot.value]

theorem Draft.mem_of_getD_lookup {args : List (String × Value)} {name : String} {default : Value}
    (plain : default.isHandle = false)
    (handle : ((args.lookup name).getD default).isHandle) :
    (args.lookup name).getD default ∈ args.map Prod.snd := by
  cases found : args.lookup name with
  | none =>
      rw [found, Option.getD_none, plain] at handle
      cases handle
  | some v => exact List.mem_map_of_mem (mem_of_lookup found)

/-- A relation between actions, the values they are given and those in their results that is
passed on by the steps of a construction. Only nodes and lists count as values here. -/
structure Tracks (T : (α : Type) → Action α → List Value → (α → List Value) → Prop) : Prop where
  pure {α : Type} {a : α} {given : List Value} {result : α → List Value}
    (h : ∀ v ∈ result a, v.isHandle → v ∈ given) : T α (Pure.pure a) given result
  throw {α : Type} (fault : Fault) (given : List Value) (result : α → List Value) :
    T α (MonadExcept.throw fault) given result
  bind {α β : Type} {act : Action α} {f : α → Action β} {given : List Value}
    {result : α → List Value} {final : β → List Value} (h : T α act given result)
    (k : ∀ a, T β (f a) (result a ++ given) final) : T β (act >>= f) given final
  weaken {α : Type} {act : Action α} {given more : List Value} {result : α → List Value}
    (h : T α act given result) (sub : ∀ v ∈ given, v.isHandle → v ∈ more) : T α act more result
  store {β : Type} {f : Store → Action β} {given : List Value} {final : β → List Value}
    (h : ∀ s, T β (f s) given final) : T β (Action.store >>= f) given final
  record (level : Level) (text : String) (given : List Value) :
    T Unit (Action.record level text) given fun _ => []
  newNode (shape : Shape) : T NodeId (Action.newNode shape) shape.values fun id => [.node id]
  newList : T ListId (Action.newList []) [] fun id => [.list id]
  adoptSlots (parent : NodeId) (slots : List Slot) :
    T Unit (Action.adoptSlots parent slots) (slots.map Slot.value) fun _ => []

namespace Tracks
variable {T : (α : Type) → Action α → List Value → (α → List Value) → Prop} (h : Tracks T)
include h

theorem map {α β : Type} {act : Action α} {g : α → β} {given : List Value}
    {result : α → List Value} {final : β → List Value} (track : T α act given result)
    (k : ∀ a, ∀ v ∈ final (g a), v.isHandle → v ∈ result a ++ given) :
    T β (g <$> act) given final := by
  rw [← bind_pure_comp]
  exact h.bind track fun a => h.pure (k a)

theorem complete (shape : Shape) : T Shape shape.complete shape.values Shape.values := by
  have same (given : List Value) : T Shape (Pure.pure shape) (given ++ shape.values) Shape.values :=
    h.pure fun v hv _ => List.mem_append_right _ hv
  cases shape with
  | boolean value =>
      cases value with
      | bool b => exact same []
      | null | int _ _ | real _ _ | text _ _ | list _ | node _ =>
          exact h.store fun _ => h.throw _ _ _
  | conditional condition consequent alternative =>
      cases condition with
      | node id =>
          simp only [Shape.complete]
          split
          · have made : T NodeId (Action.newNode .empty)
                (Shape.conditional (.node id) consequent alternative).values fun id' =>
                  [.node id'] :=
              h.weaken (h.newNode .empty) (by simp [Shape.values, Shape.fields])
            refine h.bind made fun id' => h.pure ?_
            simp +contextual [Shape.values, Shape.fields]
          · exact same []
      | null | bool _ | int _ _ | real _ _ | text _ _ | list _ => exact h.throw _ _ _
  | declaration declarators =>
      refine h.store fun s => ?_
      split
      · exact h.bind (h.record _ _ _) fun _ => same []
      · exact same []
  | function name params body =>
      rw [Shape.complete_function]
      have filled : T Value
          (if params = .null then .list <$> Action.newList [] else Pure.pure params)
          (Shape.function name params body).values fun v => [v] := by
        split
        · exact h.map (h.weaken h.newList (by simp)) (by simp)
        · exact h.pure (by simp [Shape.values, Shape.fields])
      refine h.bind filled fun params' => ?_
      have embodied : T Value
          (if body = .null then .node <$> Action.newNode (.block .null) else Pure.pure body)
          ([params'] ++ (Shape.function name params body).values) fun v => [v] := by
        split
        · refine h.map (h.weaken (h.newNode (.block .null)) ?_) (by simp)
          simp [Shape.values, Shape.fields, Value.isHandle]
        · exact h.pure (by simp [Shape.values, Shape.fields])
      refine h.bind embodied fun body' => h.pure fun v hv handle => ?_
      simp only [Shape.values, Shape.fields, List.map_cons, List.map_nil, List.mem_cons,
        List.mem_append, List.not_mem_nil, or_false] at hv ⊢
      rcases hv with rfl | rfl | rfl
      · split at handle
        · cases handle
        · simp_all
      · exact .inr (.inl rfl)
      · exact .inl rfl
  | bare | program _ _ | empty | block _ | caseGroup _ _ | switch _ _ | declarator _ _ =>
      exact same []

theorem listOrNew (args : List (String × Value)) (name : String) :
    T Value (Draft.listOrNew args name) (args.map Prod.snd) fun v => [v] := by
  unfold Draft.listOrNew
  cases found : args.lookup name with
  | some v =>
      refine h.pure fun u hu _ => ?_
      obtain rfl := List.mem_singleton.mp hu
      exact List.mem_map_of_mem (mem_of_lookup found)
  | none => exact h.bind (h.weaken h.newList (by simp)) fun id => h.pure (by simp)

/-- A draft holds nothing but arguments, and what stands for those left out. -/
theorem ofArguments (kind : Kind) (args : List (String × Value)) :
    T Draft (Draft.ofArguments kind args) (args.map Prod.snd)
      fun draft => draft.owner :: draft.shape.values := by
  have given (name : String) (handle : ((args.lookup name).getD .null).isHandle) :
      (args.lookup name).getD .null ∈ args.map Prod.snd :=
    Draft.mem_of_getD_lookup rfl handle
  cases kind with
  | bare => exact h.pure (by simp [Shape.values, Shape.fields, Value.isHandle])
  | program =>
      refine h.bind (h.listOrNew args "elements") fun elements => h.pure fun v hv handle => ?_
      simp only [Shape.values, Shape.fields, List.map_cons, List.map_nil, List.mem_cons,
        List.not_mem_nil, or_false] at hv
      rcases hv with rfl | rfl | rfl
      · cases handle
      · exact List.mem_append_right _ (Draft.mem_of_getD_lookup rfl handle)
      · simp
  | function =>
      refine h.bind (h.listOrNew args "params") fun params => h.pure fun v hv handle => ?_
      simp only [Shape.values, Shape.fields, List.map_cons, List.map_nil, List.mem_cons,
        List.not_mem_nil, or_false] at hv
      rcases hv with rfl | rfl | rfl | rfl
      · exact List.mem_append_right _ (given _ handle)
      · exact List.mem_append_right _ (Draft.mem_of_getD_lookup rfl handle)
      · simp
      · exact List.mem_append_right _ (given _ handle)
  | empty | boolean | block | conditional | caseGroup | switch | declarator | declaration =>
      refine h.pure fun v hv handle => ?_
      simp only [Shape.values, Shape.fields, List.map_cons, List.map_nil, List.mem_cons,
        List.not_mem_nil, or_false] at hv
      rcases hv with rfl | rfl | rfl | rfl <;> first | exact given _ handle | cases handle

theorem assemble (shape : Shape) :
    T NodeId (Action.assemble shape) shape.values fun id => [.node id] := by
  refine h.bind (h.complete shape) fun shape' => ?_
  refine h.bind (h.weaken (h.newNode shape') (by simp +contextual)) fun id => ?_
  refine h.bind (h.weaken (h.adoptSlots id shape'.slots) fun v hv _ => ?_) fun _ =>
    h.pure (by simp)
  simp [Shape.mem_values_of_mem_slots hv]

end Tracks
end ScriptGraph
