import Mathlib.Data.List.GetD
import ScriptGraph.Proofs.Confinement
import ScriptGraph.Proofs.Tracking

/-!
Each action, and each term, comes by known values only: one lemma for every operation, from
setting a parent to the evaluation of terms.
-/

namespace ScriptGraph

open Outset

variable {o : Outset}

namespace Action

theorem newNode_stays (shape : Shape) :
    o.Stays (newNode shape) shape.values fun id => [.node id] := by
  intro w hw known
  refine ⟨hw.addNode known, w.store.grows_addNode shape, fun v hv => ?_⟩
  obtain rfl := List.mem_singleton.mp hv
  exact knows_of_new hw.grows (by simp [Store.Has, Store.addNode, Store.nextNode])
    (Nat.lt_irrefl _)

theorem newList_stays (items : List Value) :
    o.Stays (newList items) items fun id => [.list id] := by
  intro w hw known
  refine ⟨hw.addList known, w.store.grows_addList items, fun v hv => ?_⟩
  obtain rfl := List.mem_singleton.mp hv
  exact knows_of_new hw.grows (by simp [Store.Has, Store.addList, Store.nextList])
    (Nat.lt_irrefl _)

theorem record_stays (level : Level) (text : String) (given : List Value) :
    o.Stays (record level text) given nothing :=
  fun _ hw _ => ⟨hw.of_same_store rfl rfl, .refl _, by simp [nothing]⟩

theorem newOrigin_stays (isCommon : Bool) (given : List Value) :
    o.Stays (newOrigin isCommon) given nothing := by
  intro w hw _
  cases isCommon with
  | true => exact ⟨hw, .refl _, by simp [nothing]⟩
  | false => exact ⟨hw.of_same_store rfl rfl, .refl _, by simp [nothing]⟩

theorem expectOwn_stays (id : NodeId) (member : String) (given : List Value) :
    o.Stays (expectOwn id member) given nothing := by
  refine Upholds.store_any fun s => ?_
  split
  · exact .refuse _ _
  · exact .pure (by simp [nothing])

theorem setParent_stays (child : NodeId) (parent : Option NodeId) :
    o.Stays (setParent child parent) [.node child] nothing := by
  intro w hw known
  have has : child.index < w.store.nodes.size := (known (.node child) (by simp) rfl).1
  exact ⟨hw.link has parent, w.store.grows_setNode child _, by simp [nothing]⟩

theorem setItems_stays (l : ListId) (items : List Value) :
    o.Stays (modifyStore (·.setItems l items)) items nothing :=
  fun w hw known => ⟨hw.setItems l known, w.store.grows_setItems l items, by simp [nothing]⟩

theorem seek_stays (v : Value) (member : String) (given : List Value) :
    o.Stays (seek v member) given nothing := by
  refine Upholds.store_any fun s => ?_
  split
  · exact .pure (by simp [nothing])
  · exact .lacks _ _

theorem adopt_stays (parent : NodeId) (v : Value) : o.Stays (adopt parent v) [v] nothing := by
  refine (expectOwn_stays _ _ _).bind fun _ => ?_
  cases v with
  | null => exact .pure (by simp [nothing])
  | node child =>
      refine (expectOwn_stays _ _ _).bind fun _ => ?_
      exact (setParent_stays child _).weaken (by simp [nothing])
  | bool _ | int _ _ | real _ _ | text _ _ | list _ => exact .lacks _ _

theorem adoptAll_stays (parent : NodeId) (vs : List Value) :
    o.Stays (adoptAll parent vs) vs nothing := by
  induction vs with
  | nil => exact .pure (by simp [nothing])
  | cons v vs ih =>
      refine ((adopt_stays parent v).weaken (by simp)).bind fun _ => ?_
      exact ih.weaken (by simp +contextual [nothing])

theorem length_stays (v : Value) (given : List Value) : o.Stays (length v) given nothing := by
  cases v with
  | list id => exact Upholds.store_any fun _ => .pure (by simp [nothing])
  | text t origin => exact .pure (by simp [nothing])
  | null | bool _ | int _ _ | real _ _ | node _ => exact Upholds.store_any fun _ => .throw _

theorem appendTo_stays (sequence v : Value) :
    o.Stays (appendTo sequence v) [sequence, v] nothing := by
  cases sequence with
  | list id =>
      intro w hw known
      have items (u : Value) (hu : u ∈ w.store.items id ++ [v]) : o.Knows w.store u := by
        rcases List.mem_append.mp hu with hu | hu
        · exact hw.closed (known (.list id) (by simp)) hu
        · exact known u (by simp_all)
      exact ⟨hw.setItems id items, w.store.grows_setItems id _, by simp [nothing]⟩
  | null | bool _ | int _ _ | real _ _ | text _ _ | node _ => exact .refuse _ _

theorem elementsFor_stays (member : String) (v : Value) :
    o.Stays (elementsFor member v) [v] fun found => [.node found.1, found.2] := by
  cases v with
  | node id =>
      refine (expectOwn_stays _ _ _).bind fun _ => Upholds.store fun w hw known => ?_
      cases hs : w.store.shape id with
      | program strict elements =>
          have here := known (.node id) (by simp)
          refine ⟨hw, .refl _, fun u hu => ?_⟩
          rcases List.mem_pair.mp hu with rfl | rfl
          · exact here
          · refine hw.closed here (Store.mem_successors_of_mem_values ?_)
            simp [hs, Shape.values, Shape.fields]
      | bare | empty | boolean _ | block _ | conditional _ _ _ | caseGroup _ _ | switch _ _
      | declarator _ _ | declaration _ | function _ _ _ => exact ⟨hw, .refl _⟩
  | null | bool _ | int _ _ | real _ _ | text _ _ | list _ => exact .lacks _ _

theorem pushEach_stays (id : NodeId) (elements : Value) (vs : List Value) :
    o.Stays (pushEach id elements vs) (elements :: vs) nothing := by
  induction vs with
  | nil => exact .pure (by simp [nothing])
  | cons v vs ih =>
      refine ((adopt_stays id v).weaken (by simp)).bind fun _ => ?_
      refine ((appendTo_stays elements v).weaken (by simp [nothing])).bind fun _ => ?_
      exact ih.weaken (by simp +contextual [nothing])

theorem push_stays (target : Value) (vs : List Value) :
    o.Stays (push target vs) (target :: vs) nothing := by
  refine ((elementsFor_stays "push" target).weaken (by simp)).bind fun found => ?_
  refine ((pushEach_stays found.1 found.2 vs).weaken (by simp +contextual)).bind fun _ => ?_
  refine (length_stays found.2 _).bind fun _ => ?_
  exact (record_stays _ _ _).bind fun _ => .pure (by simp [nothing])

theorem removeLast_stays (id : ListId) :
    o.Stays (removeLast id) [.list id] fun v => [v] := by
  refine Upholds.store fun w hw known => ?_
  have items (u : Value) (hu : u ∈ w.store.items id) : o.Knows w.store u :=
    hw.closed (known (.list id) (by simp)) hu
  cases last : (w.store.items id).getLast? with
  | none => exact ⟨hw, .refl _⟩
  | some v =>
      refine ⟨hw.setItems id fun u hu => items u (List.dropLast_subset _ hu),
        w.store.grows_setItems id _, fun u hu => ?_⟩
      obtain rfl := List.mem_singleton.mp hu
      exact (items u (List.mem_of_getLast? last)).mono (w.store.grows_setItems id _)

theorem popWithin_stays (depth : Nat) (target : Value) :
    o.Stays (popWithin depth target) [target] fun v => [v] := by
  induction depth generalizing target with
  | zero => exact .throw _
  | succ depth ih =>
      refine (elementsFor_stays "pop" target).bind fun found => ?_
      obtain ⟨m, elements⟩ := found
      refine Upholds.store_any fun s => ?_
      split
      · exact .pure (by simp [Value.isHandle])
      · have report (v : Value) (given : List Value) : o.Stays
            (do
              let count ← length elements
              record .debug
                ("Popped " ++ (← store).typeName v ++ ", module now holds " ++ count.repr)
              return v) ([v] ++ given) fun v => [v] := by
          refine (length_stays elements _).bind fun _ => ?_
          refine Upholds.store_any fun s => (record_stays _ _ _).bind fun _ => ?_
          exact .pure (by simp [nothing])
        cases elements with
        | list id => exact ((removeLast_stays id).weaken (by simp)).bind fun v => report v _
        | node id => exact ((ih (.node id)).weaken (by simp)).bind fun v => report v _
        | null | bool _ | int _ _ | real _ _ | text _ _ =>
            exact Upholds.bind (.lacks _ _) fun v => report v _

theorem pop_stays (target : Value) : o.Stays (pop target) [target] fun v => [v] :=
  Upholds.store_any fun _ => popWithin_stays _ target

theorem popAny_stays (v : Value) : o.Stays (popAny v) [v] fun last => [last] := by
  cases v with
  | list id => exact removeLast_stays id
  | null | bool _ | int _ _ | real _ _ | text _ _ | node _ => exact pop_stays _

theorem listFor_stays (member : String) (v : Value) :
    o.Stays (listFor member v) [v] fun id => [.list id] := by
  cases v with
  | list id => exact .pure (by simp)
  | null | bool _ | int _ _ | real _ _ | text _ _ | node _ => exact .refuse _ _

theorem assign_stays (v : Value) {field : String} (other : field ≠ Node.linkName) (value : Value) :
    o.Stays (assign v field value) [v, value] nothing := by
  cases v with
  | node id =>
      simp only [assign]
      split
      · exact .throw _
      · split
        · exact .throw _
        · intro w hw known
          exact ⟨hw.setAttribute (known (.node id) (by simp)) other (known value (by simp)),
            w.store.grows_setNode id _, by simp [nothing]⟩
  | null | bool _ | int _ _ | real _ _ | text _ _ | list _ =>
      simp only [assign]
      split
      · exact .throw _
      · exact .lacks _ _

theorem assignParent_stays (v parent : Value) : o.Stays (assignParent v parent) [v] nothing := by
  cases v with
  | node id =>
      refine (expectOwn_stays _ _ _).bind fun _ => ?_
      cases parent with
      | null | node _ => exact (setParent_stays id _).weaken (by simp [nothing])
      | bool _ | int _ _ | real _ _ | text _ _ | list _ => exact Upholds.store_any fun _ => .throw _
  | null | bool _ | int _ _ | real _ _ | text _ _ | list _ => exact .lacks _ _

theorem iterate_stays (v : Value) : o.Stays (query (·.iterate v)) [v] id := by
  refine .query fun w vs hw known found u hu => ?_
  cases v with
  | list l =>
      cases found
      exact hw.closed (known (.list l) (by simp)) hu
  | text t origin =>
      cases found
      obtain ⟨c, -, rfl⟩ := List.mem_map.mp hu
      exact knows_of_not_isHandle rfl
  | null | bool _ | int _ _ | real _ _ | node _ => cases found

theorem adoptSlot_stays (parent : NodeId) (slot : Slot) :
    o.Stays (adoptSlot parent slot) [slot.value] nothing := by
  cases slot with
  | one v => exact adopt_stays parent v
  | every v =>
      refine (iterate_stays v).bind fun vs => ?_
      exact (adoptAll_stays parent vs).weaken (by simp +contextual)
  | nodesAmong v =>
      refine (iterate_stays v).bind fun vs => ?_
      exact (adoptAll_stays parent _).weaken (by simp +contextual)

theorem adoptSlots_stays (parent : NodeId) (slots : List Slot) :
    o.Stays (adoptSlots parent slots) (slots.map Slot.value) nothing := by
  induction slots with
  | nil => exact .pure (by simp [nothing])
  | cons slot slots ih =>
      refine ((adoptSlot_stays parent slot).weaken (by simp)).bind fun _ => ?_
      exact ih.weaken fun v hv _ => by simp_all [nothing]

end Action

/-- What is known is followed through constructions. -/
theorem tracks_stays (o : Outset) : Tracks fun _ => o.Stays where
  pure := .pure
  throw fault _ _ := .throw fault
  bind := .bind
  weaken := .weaken
  store := .store_any
  record := Action.record_stays
  newNode := Action.newNode_stays
  newList := Action.newList_stays []
  adoptSlots := Action.adoptSlots_stays

namespace Action

theorem register_stays (owner : Value) (id : NodeId) :
    o.Stays (register owner id) [owner, .node id] nothing := by
  unfold register
  split
  · exact .pure (by simp [nothing])
  · exact (push_stays owner [.node id]).bind fun _ => .pure (by simp [nothing])

theorem build_stays (draft : Draft) :
    o.Stays (build draft) (draft.owner :: draft.shape.values) fun id => [.node id] := by
  refine (((tracks_stays o).assemble draft.shape).weaken (by simp +contextual)).bind fun id => ?_
  exact ((register_stays draft.owner id).weaken (by simp)).bind fun _ => .pure (by simp [nothing])

theorem mem_of_assign {args : Arguments} {signature : Signature} {assigned : List (String × Value)}
    (h : args.assign signature = .ok assigned) {v : Value} (hv : v ∈ assigned.map Prod.snd) :
    v ∈ args.positional ++ args.named.map Prod.snd := by
  unfold Arguments.assign at h
  split at h
  · cases h
  · cases h
    obtain ⟨entry, mem, rfl⟩ := List.mem_map.mp hv
    rcases List.mem_append.mp mem with mem | mem
    · exact List.mem_append_left _ (List.of_mem_zip mem).2
    · exact List.mem_append_right _ (List.mem_map_of_mem mem)

theorem construct_stays (kind : Kind) (args : Arguments) :
    o.Stays (construct kind args) (args.positional ++ args.named.map Prod.snd)
      fun id => [.node id] := by
  unfold construct
  cases assigned : args.assign kind.signature with
  | error fault => exact .throw fault
  | ok assigned' =>
      change o.Stays (Draft.ofArguments kind assigned' >>= build) _ _
      have drafted : o.Stays (Draft.ofArguments kind assigned')
          (args.positional ++ args.named.map Prod.snd)
          fun draft => draft.owner :: draft.shape.values :=
        ((tracks_stays o).ofArguments kind assigned').weaken fun v hv _ => mem_of_assign assigned hv
      exact drafted.bind fun draft => (build_stays draft).weaken (by simp +contextual)

/-- A parent is read only if the roots lead to it. -/
theorem readField_stays (roots : List Value) (v : Value) (name : String) :
    o.Stays (readField roots v name) (v :: roots) fun value => [value] := by
  cases v with
  | node id =>
      simp only [readField]
      split
      · refine (expectOwn_stays _ _ _).bind fun _ => Upholds.store fun w hw known => ?_
        cases found : w.store.parentAmong roots id with
        | none =>
            refine ⟨hw, .refl _, fun v hv => ?_⟩
            obtain rfl := List.mem_singleton.mp hv
            exact knows_of_not_isHandle rfl
        | some p =>
            refine ⟨hw, .refl _, fun v hv => ?_⟩
            obtain rfl := List.mem_singleton.mp hv
            have reached := (Store.parentAmong_eq_some_iff.mp found).2
            exact hw.knows_of_reachable (fun r hr => known r (by simp [nothing, hr])) reached
      · refine Upholds.store fun w hw known => ?_
        cases found : (w.store.node id).attribute? name with
        | none => exact ⟨hw, .refl _⟩
        | some value =>
            refine ⟨hw, .refl _, fun v hv => ?_⟩
            obtain rfl := List.mem_singleton.mp hv
            have here := known (.node id) (by simp)
            unfold Node.attribute? at found
            split at found
            · rename_i u stored
              cases found
              exact hw.closed here (List.mem_map_of_mem (mem_of_lookup stored))
            · split at found <;> cases found
              exact knows_of_not_isHandle rfl
  | null | bool _ | int _ _ | real _ _ | text _ _ | list _ => exact .lacks _ _

theorem newText_stays (s : String) (given : List Value) :
    o.Stays (newText s) given fun v => [v] :=
  (newOrigin_stays _ _).bind fun _ => .pure (by simp [Value.isHandle])

theorem readItem_stays (v index : Value) :
    o.Stays (readItem v index) [v] fun item => [item] := by
  cases v with
  | list id =>
      refine Upholds.query fun w item hw known found u hu => ?_
      obtain rfl := List.mem_singleton.mp hu
      unfold Sequence.pick at found
      cases located : Sequence.locate .list w.store index (w.store.items id).length with
      | error fault =>
          rw [located] at found
          cases found
      | ok position =>
          rw [located] at found
          cases found
          by_cases inside : position < (w.store.items id).length
          · rw [List.getD_eq_getElem _ _ inside]
            exact hw.closed (known (.list id) (by simp)) (List.getElem_mem inside)
          · rw [List.getD_eq_default _ _ (Nat.le_of_not_lt inside)]
            exact knows_of_not_isHandle rfl
  | text t origin =>
      have picked :
          o.Stays (query fun s => Sequence.character s index t) [.text t origin] nothing :=
        .query (by simp [nothing])
      exact picked.bind fun _ => newText_stays _ _
  | null | bool _ | int _ _ | real _ _ | node _ => exact Upholds.store_any fun _ => .throw _

end Action

namespace Term

mutual

theorem eval_stays (names : Bindings) (held : List Value) (t : Term) :
    o.Stays (t.eval names held) (held ++ names.values) fun v => [v] := by
  cases t with
  | null | bool _ => exact .pure (by simp [Value.isHandle])
  | int _ | real _ =>
      exact (Action.newOrigin_stays _ _).bind fun _ => .pure (by simp [Value.isHandle])
  | text s => exact Action.newText_stays s _
  | list items =>
      rw [eval]
      refine (evalAll_stays names held items).bind fun vs => ?_
      exact ((Action.newList_stays vs).weaken (by simp +contextual)).bind fun id => .pure (by simp)
  | construct kind args labels values =>
      rw [eval]
      refine (evalAll_stays names held args).bind fun positional => ?_
      refine ((evalAll_stays names (positional ++ held) values).weaken
        fun v hv _ => by simpa using hv).bind fun named => ?_
      refine ((Action.construct_stays kind ⟨positional, labels.zip named⟩).weaken
        fun v hv _ => ?_).bind fun id => .pure (by simp)
      rcases List.mem_append.mp hv with hv | hv
      · simp [hv]
      · obtain ⟨entry, mem, rfl⟩ := List.mem_map.mp hv
        simp [(List.of_mem_zip mem).2]
  | ref name =>
      rw [eval]
      split
      · rename_i v found
        refine .pure fun u hu _ => List.mem_append_right _ ?_
        obtain rfl := List.mem_singleton.mp hu
        exact List.mem_map_of_mem (mem_of_lookup found)
      · exact .throw _
  | field owner name =>
      rw [eval]
      refine (eval_stays names held owner).bind fun v => ?_
      exact (Action.readField_stays _ v name).weaken (by simp +contextual)
  | item owner index =>
      rw [eval]
      refine (eval_stays names held owner).bind fun v => ?_
      refine ((eval_stays names (v :: held) index).weaken fun _ hu _ => hu).bind fun i => ?_
      exact (Action.readItem_stays v i).weaken (by simp)

theorem evalAll_stays (names : Bindings) (held : List Value) (ts : List Term) :
    o.Stays (evalAll names held ts) (held ++ names.values) id := by
  cases ts with
  | nil =>
      rw [evalAll]
      exact .pure (by simp)
  | cons t ts =>
      rw [evalAll]
      refine (eval_stays names held t).bind fun v => ?_
      refine ((evalAll_stays names (v :: held) ts).weaken fun _ hu _ => hu).bind fun vs => ?_
      exact .pure (by simp +contextual)

end

end Term
end ScriptGraph
