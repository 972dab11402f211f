import ScriptGraph.Bindings
import ScriptGraph.Proofs.Healthy

/-!
Pictures of values: what is left of a value and everything below it when it is written
out without identities. Sharing, parents and whatever cannot be reached do not show in
a picture. Below a value without cycles the picture is complete.
-/

namespace ScriptGraph

inductive Picture
  | null
  | bool (b : Bool)
  | int (n : Int)
  | real (x : Binary64)
  | text (s : String)
  | list (items : List Picture)
  /-- The fields in order, and what stands in the place of operations. -/
  | node (kind : Kind) (fields : List Picture) (overrides : List (Option Picture))
  /-- Not looked into. -/
  | cut

namespace Store
variable {s s' : Store}

/-- Picture a value to a bounded depth. Of the attributes that were set on a node those show
that stand in the place of the given operations. -/
def pictureWithin (s : Store) (members : List String) : Nat → Value → Picture
  | _, .null => .null
  | _, .bool b => .bool b
  | _, .int n _ => .int n
  | _, .real x _ => .real x
  | _, .text t _ => .text t
  | 0, .list _ | 0, .node _ => .cut
  | depth + 1, .list l => .list ((s.items l).map (s.pictureWithin members depth))
  | depth + 1, .node id =>
    .node (s.node id).kind
      ((s.shape id).values.map (s.pictureWithin members depth))
      (members.map fun member =>
        ((s.node id).override? member).map (s.pictureWithin members depth))

/-- The picture of a value. Where there are no cycles, no way down is longer than the number of
nodes and lists. -/
def picture (s : Store) (members : List String) (v : Value) : Picture :=
  s.pictureWithin members (s.nodes.size + s.lists.size + 1) v

/-- The second value is found below the first one. -/
def Below (s : Store) : Value → Value → Prop :=
  Relation.TransGen fun u v => v ∈ s.successors u

/-- Nothing that can be reached from the value is found below itself. -/
def AcyclicBelow (s : Store) (v : Value) : Prop :=
  ∀ u, s.Reachable [v] u → ¬ s.Below u u

/-- The nodes and lists of a store. -/
def handles (s : Store) : List Value :=
  (List.range s.nodes.size).map (fun i => .node ⟨i⟩) ++
    (List.range s.lists.size).map fun i => .list ⟨i⟩

/-- The number of nodes and lists of the store that are not among the given ones. -/
def outside (s : Store) (found : List Value) : Nat :=
  (s.handles.filter (· ∉ found)).length

theorem outside_nil : s.outside [] = s.nodes.size + s.lists.size := by
  simp [outside, handles]

theorem filter_not_mem_cons (s : Store) (v : Value) (found : List Value) :
    s.handles.filter (· ∉ v :: found) = (s.handles.filter (· ∉ found)).filter (· ≠ v) := by
  rw [List.filter_filter]
  congr 1
  funext u
  simp

theorem outside_cons_lt {v : Value} {found : List Value} (h : v ∈ s.handles) (new : v ∉ found) :
    s.outside (v :: found) < s.outside found := by
  rw [outside, outside, filter_not_mem_cons, List.length_filter_lt_length_iff_exists]
  exact ⟨v, by simp [h, new], by simp⟩

theorem node_mem_handles {id : NodeId} : .node id ∈ s.handles ↔ id.index < s.nodes.size := by
  constructor
  · intro h
    obtain ⟨i, hi, rfl⟩ : ∃ i, i < s.nodes.size ∧ NodeId.mk i = id := by simpa [handles] using h
    exact hi
  · intro h
    exact List.mem_append_left _ (List.mem_map.mpr ⟨id.index, List.mem_range.mpr h, rfl⟩)

theorem list_mem_handles {l : ListId} : .list l ∈ s.handles ↔ l.index < s.lists.size := by
  constructor
  · intro h
    obtain ⟨i, hi, rfl⟩ : ∃ i, i < s.lists.size ∧ ListId.mk i = l := by simpa [handles] using h
    exact hi
  · intro h
    exact List.mem_append_right _ (List.mem_map.mpr ⟨l.index, List.mem_range.mpr h, rfl⟩)

/-- Nothing is found in what is not in the store. -/
theorem mem_handles_of_mem_successors {u v : Value} (h : v ∈ s.successors u) : u ∈ s.handles := by
  by_contra out
  cases u with
  | node id =>
      rw [node_mem_handles] at out
      rw [successors, node_of_size_le (Nat.le_of_not_lt out)] at h
      cases h
  | list l =>
      rw [list_mem_handles] at out
      have none : s.items l = [] := by
        simp [items, Array.getD_eq_getD_getElem?, Array.getElem?_eq_none (Nat.le_of_not_lt out)]
      rw [successors, none] at h
      cases h
  | null | bool _ | int _ _ | real _ _ | text _ _ => cases h

theorem mem_successors_of_override? {id : NodeId} {member : String} {v : Value}
    (h : (s.node id).override? member = some v) : v ∈ s.successors (.node id) :=
  List.mem_map_of_mem (List.mem_append_right _ (mem_of_lookup h))

/-- What is reached from a part of a value is reached from the value. -/
theorem reachable_of_mem_successors {u v w : Value} (hu : u ∈ s.successors v)
    (h : s.Reachable [u] w) : s.Reachable [v] w := by
  induction h with
  | root mem =>
      obtain rfl := List.mem_singleton.mp mem
      exact .step (.root (by simp)) hu
  | step _ mem ih => exact .step ih mem

namespace AcyclicBelow
variable {u v : Value}

theorem not_below (h : s.AcyclicBelow v) : ¬ s.Below v v :=
  h v (.root (by simp))

theorem of_mem_successors (h : s.AcyclicBelow v) (hu : u ∈ s.successors v) :
    s.AcyclicBelow u :=
  fun w hw => h w (reachable_of_mem_successors hu hw)

theorem of_not_isHandle (h : ¬ v.isHandle) : s.AcyclicBelow v := by
  intro u hu cycle
  obtain ⟨w, hw, -⟩ := Relation.TransGen.head'_iff.mp cycle
  cases hu with
  | root mem =>
      obtain rfl := List.mem_singleton.mp mem
      exact h (isHandle_of_mem_successors hw)
  | step reached mem =>
      have only : ∀ {u}, s.Reachable [v] u → u = v := by
        intro u hu
        induction hu with
        | root mem => exact List.mem_singleton.mp mem
        | step _ mem ih => exact absurd (ih ▸ isHandle_of_mem_successors mem) h
      exact h (only reached ▸ isHandle_of_mem_successors mem)

/-- What holds of a value as soon as it holds of all its parts holds where there is no cycle. The
values on the way down are distinct, so it ends. -/
theorem induct {motive : (v : Value) → s.AcyclicBelow v → Prop}
    (step : ∀ (v : Value) (h : s.AcyclicBelow v),
      (∀ (u : Value) (hu : u ∈ s.successors v), motive u (h.of_mem_successors hu)) → motive v h)
    {v : Value} (h : s.AcyclicBelow v) : motive v h := by
  suffices main : ∀ n way v (h : s.AcyclicBelow v), s.outside way < n →
      (∀ u ∈ way, s.Below u v) → motive v h from
    main _ [] v h (Nat.lt_succ_self _) (by simp)
  intro n
  induction n with
  | zero =>
      intro way v _ hn
      exact absurd hn (Nat.not_lt_zero _)
  | succ n ih =>
      intro way v h hn hway
      refine step v h fun u hu => ?_
      have new : v ∉ way := fun mem => h.not_below (hway v mem)
      have less := outside_cons_lt (mem_handles_of_mem_successors hu) new
      refine ih (v :: way) u (h.of_mem_successors hu) (by omega) fun w hw => ?_
      rcases List.mem_cons.mp hw with rfl | hw
      · exact .single hu
      · exact .tail (hway w hw) hu

end AcyclicBelow

/-- There is no cycle where ranks fall from each object to those it holds. -/
theorem acyclicBelow_of_rank (rank : Value → Nat)
    (h : ∀ u ∈ s.handles, ∀ v ∈ s.successors u, v.isHandle → rank v < rank u) (v : Value) :
    s.AcyclicBelow v := by
  have falls {u v : Value} (path : s.Below u v) (handle : v.isHandle) : rank v < rank u := by
    induction path with
    | single mem => exact h _ (mem_handles_of_mem_successors mem) _ mem handle
    | tail _ mem ih =>
        have next := h _ (mem_handles_of_mem_successors mem) _ mem handle
        exact Nat.lt_trans next (ih (isHandle_of_mem_successors mem))
  intro u _ cycle
  obtain ⟨w, hw, -⟩ := Relation.TransGen.head'_iff.mp cycle
  exact Nat.lt_irrefl _ (falls cycle (isHandle_of_mem_successors hw))

/-- Where nodes and lists are held only by later ones, taken in turns. -/
def rank : Value → Nat
  | .node id => 2 * id.index
  | .list l => 2 * l.index + 1
  | .null | .bool _ | .int .. | .real .. | .text .. => 0

variable {members : List String}

/-- Without cycles, a deeper look shows nothing more. The values on the way down are distinct,
so as many levels as there are others suffice. -/
theorem pictureWithin_eq {n m : Nat} {v : Value} (way : List Value)
    (acyclic : s.AcyclicBelow v) (hway : ∀ u ∈ way, s.Below u v) (hn : s.outside way < n)
    (hm : s.outside way < m) :
    s.pictureWithin members n v = s.pictureWithin members m v := by
  induction n generalizing m way v with
  | zero => exact absurd hn (Nat.not_lt_zero _)
  | succ n ih =>
      obtain ⟨m, rfl⟩ : ∃ k, m = k + 1 := ⟨m - 1, by omega⟩
      have below (u : Value) (hu : u ∈ s.successors v) :
          s.pictureWithin members n u = s.pictureWithin members m u := by
        have new : v ∉ way := fun mem => acyclic.not_below (hway v mem)
        have less := outside_cons_lt (mem_handles_of_mem_successors hu) new
        refine ih (v :: way) (acyclic.of_mem_successors hu) (fun w hw => ?_) (by omega) (by omega)
        rcases List.mem_cons.mp hw with rfl | hw
        · exact .single hu
        · exact .tail (hway w hw) hu
      cases v with
      | list l => exact congrArg Picture.list (List.map_congr_left below)
      | node id =>
          simp only [pictureWithin]
          congr 1
          · exact List.map_congr_left fun u hu => below u (mem_successors_of_mem_values hu)
          · refine List.map_congr_left fun member _ => Option.map_congr fun u hu => ?_
            exact below u (mem_successors_of_override? hu)
      | null | bool _ | int _ _ | real _ _ | text _ _ => rfl

/-- The parts of a picture are pictures. -/
theorem pictureWithin_of_mem_successors {u v : Value} (acyclic : s.AcyclicBelow v)
    (hu : u ∈ s.successors v) :
    s.pictureWithin members (s.nodes.size + s.lists.size) u = s.picture members u := by
  have less := outside_cons_lt (mem_handles_of_mem_successors hu) List.not_mem_nil
  rw [outside_nil] at less
  refine pictureWithin_eq [v] (acyclic.of_mem_successors hu) (fun w hw => ?_) less (by omega)
  obtain rfl := List.mem_singleton.mp hw
  exact .single hu

theorem picture_list {l : ListId} (acyclic : s.AcyclicBelow (.list l)) :
    s.picture members (.list l) = .list ((s.items l).map (s.picture members)) :=
  congrArg Picture.list
    (List.map_congr_left fun _ hu => pictureWithin_of_mem_successors acyclic hu)

theorem picture_node {id : NodeId} (acyclic : s.AcyclicBelow (.node id)) :
    s.picture members (.node id) =
      .node (s.node id).kind ((s.shape id).values.map (s.picture members))
        (members.map fun member => ((s.node id).override? member).map (s.picture members)) := by
  simp only [picture, pictureWithin]
  congr 1
  · exact List.map_congr_left fun u hu =>
      pictureWithin_of_mem_successors acyclic (mem_successors_of_mem_values hu)
  · refine List.map_congr_left fun member _ => Option.map_congr fun u hu => ?_
    exact pictureWithin_of_mem_successors acyclic (mem_successors_of_override? hu)

end Store
end ScriptGraph
