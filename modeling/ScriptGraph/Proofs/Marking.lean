import ScriptGraph.Proofs.Picture

/-!
Marking finds exactly what can be reached. So a parent is read exactly as long as it is
recorded and reachable, and sweeping forgets exactly the others.
-/

namespace ScriptGraph
namespace Store
variable {s : Store} {roots found queue : List Value}

/-- How many values the nodes and lists hold that are not yet found. -/
def pending (s : Store) (found : List Value) : Nat :=
  ((s.handles.filter (· ∉ found)).flatMap s.successors).length

theorem length_flatMap_filter_ne_le (f : Value → List Value) (vs : List Value) (v : Value) :
    ((vs.filter (· ≠ v)).flatMap f).length ≤ (vs.flatMap f).length ∧
      (v ∈ vs → (f v).length + ((vs.filter (· ≠ v)).flatMap f).length ≤ (vs.flatMap f).length) := by
  induction vs with
  | nil => simp
  | cons u us ih =>
      by_cases same : u = v
      · subst same
        rw [List.filter_cons_of_neg (by simp)]
        simp only [List.flatMap_cons, List.length_append]
        exact ⟨by omega, fun _ => by omega⟩
      · rw [List.filter_cons_of_pos (by simpa using same)]
        simp only [List.flatMap_cons, List.length_append, List.mem_cons]
        refine ⟨by omega, fun mem => ?_⟩
        have rest := ih.2 (mem.resolve_left fun e => same e.symm)
        omega

/-- What is looked into now is not pending any longer. -/
theorem pending_cons_le {v : Value} (new : v ∉ found) :
    (s.successors v).length + s.pending (v :: found) ≤ s.pending found := by
  have less := length_flatMap_filter_ne_le s.successors (s.handles.filter (· ∉ found)) v
  rw [pending, filter_not_mem_cons]
  by_cases held : v ∈ s.handles
  · exact less.2 (List.mem_filter.mpr ⟨held, by simpa using new⟩)
  · have none : s.successors v = [] :=
      List.eq_nil_iff_forall_not_mem.mpr fun u hu => held (mem_handles_of_mem_successors hu)
    rw [none, List.length_nil, Nat.zero_add]
    exact less.1

theorem pending_nil : s.pending [] = s.edgeCount := by
  have nodes : (List.range s.nodes.size).map (fun i => s.node ⟨i⟩) = s.nodes.toList := by
    apply List.ext_getElem <;> simp +contextual [node, Array.getD_eq_getD_getElem?]
  have lists : (List.range s.lists.size).map (fun i => s.items ⟨i⟩) = s.lists.toList := by
    apply List.ext_getElem <;> simp +contextual [items, Array.getD_eq_getD_getElem?]
  rw [edgeCount, ← nodes, ← lists, List.flatMap_map, ← List.flatMap_def]
  simp [pending, handles, successors, List.flatMap_map]

theorem markWithin_sound (steps : Nat)
    (hf : ∀ v ∈ found, v.isHandle ∧ s.Reachable roots v)
    (hq : ∀ v ∈ queue, s.Reachable roots v) {v : Value} (h : v ∈ s.markWithin steps found queue) :
    v.isHandle ∧ s.Reachable roots v := by
  fun_induction markWithin s steps found queue with
  | case1 | case2 => exact hf v h
  | case3 steps found u queue new ih =>
      have reached := hq u (by simp)
      refine ih (fun w hw => ?_) (fun w hw => ?_) h
      · rcases List.mem_cons.mp hw with rfl | hw
        · exact ⟨new.1, reached⟩
        · exact hf w hw
      · rcases List.mem_append.mp hw with hw | hw
        · exact .step reached hw
        · exact hq w (by simp [hw])
  | case4 steps found u queue _ ih => exact ih hf (fun w hw => hq w (by simp [hw])) h

/-- With enough steps the queue runs empty, and all that it led to has been found. Each step
takes one value from the queue; what it adds was pending. -/
theorem markWithin_complete {steps : Nat} (enough : queue.length + s.pending found ≤ steps)
    (closed : ∀ u ∈ found, ∀ v ∈ s.successors u, v.isHandle → v ∈ found ∨ v ∈ queue) :
    (∀ v, v.isHandle → v ∈ found ∨ v ∈ queue → v ∈ s.markWithin steps found queue) ∧
      ∀ u ∈ s.markWithin steps found queue, ∀ v ∈ s.successors u, v.isHandle →
        v ∈ s.markWithin steps found queue := by
  fun_induction markWithin s steps found queue with
  | case1 found queue =>
      obtain rfl : queue = [] := List.length_eq_zero_iff.mp (by omega)
      exact ⟨fun v _ h => by simpa using h, by simpa using closed⟩
  | case2 => exact ⟨fun v _ h => by simpa using h, by simpa using closed⟩
  | case3 steps found u queue new ih =>
      have less := pending_cons_le (s := s) new.2
      simp only [List.length_cons] at enough
      have onward {v : Value} (h : v ∈ found ∨ v ∈ u :: queue) :
          v ∈ u :: found ∨ v ∈ s.successors u ++ queue := by
        rcases h with h | h
        · exact .inl (List.mem_cons_of_mem _ h)
        · rcases List.mem_cons.mp h with rfl | h
          · exact .inl List.mem_cons_self
          · exact .inr (List.mem_append_right _ h)
      have next := ih (by rw [List.length_append]; omega) fun w hw v hv handle => ?_
      · exact ⟨fun v handle h => next.1 v handle (onward h), next.2⟩
      · rcases List.mem_cons.mp hw with rfl | hw
        · exact .inr (List.mem_append_left _ hv)
        · exact onward (closed w hw v hv handle)
  | case4 steps found u queue old ih =>
      simp only [List.length_cons] at enough
      have known (v : Value) (handle : v.isHandle) (h : v ∈ found ∨ v ∈ u :: queue) :
          v ∈ found ∨ v ∈ queue := by
        rcases h with h | h
        · exact .inl h
        · rcases List.mem_cons.mp h with rfl | h
          · exact .inl (by_contra fun new => old ⟨handle, new⟩)
          · exact .inr h
      have next := ih (by omega) fun w hw v hv handle => known v handle (closed w hw v hv handle)
      exact ⟨fun v handle h => next.1 v handle (known v handle h), next.2⟩

/-- Marking finds the nodes and lists that can be reached, and nothing else. -/
theorem mem_mark_iff {v : Value} : v ∈ s.mark roots ↔ v.isHandle ∧ s.Reachable roots v := by
  constructor
  · exact markWithin_sound _ (by simp) fun v hv => .root hv
  · rintro ⟨handle, reached⟩
    have enough : roots.length + s.pending [] ≤ roots.length + s.edgeCount + 1 := by
      rw [pending_nil]
      omega
    obtain ⟨start, closed⟩ := markWithin_complete enough (by simp)
    induction reached with
    | root mem => exact start _ handle (.inr mem)
    | step _ mem ih => exact closed _ (ih (isHandle_of_mem_successors mem)) _ mem handle

theorem parentAmong_eq_some_iff {id p : NodeId} :
    s.parentAmong roots id = some p ↔
      (s.node id).parent = some p ∧ s.Reachable roots (.node p) := by
  simp [parentAmong, Option.filter_eq_some_iff, mem_mark_iff, Value.isHandle]

/-- After a sweep a node has the parent that could be read before it. -/
theorem parent_sweep (s : Store) (roots : List Value) (id : NodeId) :
    ((s.sweep roots).node id).parent = s.parentAmong roots id := by
  rw [node_sweep]
  rfl

theorem successors_sweep (s : Store) (roots : List Value) (v : Value) :
    (s.sweep roots).successors v = s.successors v := by
  cases v with
  | node id =>
      rw [successors, node_sweep]
      rfl
  | list _ | null | bool _ | int _ _ | real _ _ | text _ _ => rfl

end Store
end ScriptGraph
