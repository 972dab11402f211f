import ScriptGraph.Proofs.Picture

/-!
Descriptions level by level. With nothing to bound the depth a description still ends, whatever
the cycles are: each level adds to the nodes and lists that are unfinished, and the store has only
so many. Where there are no cycles nothing is cut off.
-/

namespace ScriptGraph
namespace Store
variable {s : Store} {u v : Value}

/-- One level of a description, with texts for what is found below. -/
def describeBy (s : Store) (below : Value → String) : Value → String
  | .null => "None"
  | .bool b => if b then "True" else "False"
  | .int n _ => n.repr
  | .real x _ => x.text
  | .text t _ => quote t
  | .list id => "[" ++ ", ".intercalate ((s.items id).map below) ++ "]"
  | .node id =>
    (s.node id).kind.label ++ "(" ++ ", ".intercalate
      ((s.shape id).fields.map fun field => field.1 ++ "=" ++ below field.2) ++ ")"

/-- What a description says of the value. Attributes that are not fields do not show. -/
def described (s : Store) : Value → List Value
  | .list id => s.items id
  | .node id => (s.shape id).values
  | .null | .bool _ | .int .. | .real .. | .text .. => []

/-- What stands for a node or a list inside its own description. -/
def cutOff : Value → String
  | .list _ => "[...]"
  | .null | .bool _ | .int .. | .real .. | .text .. | .node _ => "..."

theorem mem_successors_of_mem_described (h : u ∈ s.described v) : u ∈ s.successors v := by
  cases v with
  | list _ => exact h
  | node _ => exact mem_successors_of_mem_values h
  | null | bool _ | int _ _ | real _ _ | text _ _ => cases h

theorem describeBy_congr {f g : Value → String} (h : ∀ u ∈ s.described v, f u = g u) :
    s.describeBy f v = s.describeBy g v := by
  cases v with
  | list id =>
      have items : (s.items id).map f = (s.items id).map g := List.map_congr_left h
      simp only [describeBy, items]
  | node id =>
      simp only [describeBy]
      rw [List.map_congr_left fun field hf => ?_]
      rw [h field.2 (List.mem_map_of_mem hf)]
  | null | bool _ | int _ _ | real _ _ | text _ _ => rfl

variable {n m : Nat} {unfinished : List Value}

theorem describeWithin_of_mem (handle : v.isHandle) (met : v ∈ unfinished) :
    s.describeWithin n unfinished v = cutOff v := by
  cases v with
  | list _ | node _ => cases n <;> simp [describeWithin, cutOff, met]
  | null | bool _ | int _ _ | real _ _ | text _ _ => cases handle

theorem describeWithin_succ (new : v.isHandle → v ∉ unfinished) :
    s.describeWithin (n + 1) unfinished v =
      s.describeBy (s.describeWithin n (v :: unfinished)) v := by
  cases v with
  | list _ | node _ => simp [describeWithin, describeBy, new rfl]
  | null | bool _ | int _ _ | real _ _ | text _ _ => rfl

/-- One level down there is less left. -/
theorem outside_lt_of_mem_described (hu : u ∈ s.described v) (new : v.isHandle → v ∉ unfinished)
    (h : s.outside unfinished < n + 1) : s.outside (v :: unfinished) < n := by
  have held := mem_successors_of_mem_described hu
  have less := outside_cons_lt (mem_handles_of_mem_successors held)
    (new (isHandle_of_mem_successors held))
  omega

/-- More depth than there are unfinished handles does not change a description. -/
theorem describeWithin_eq (hn : s.outside unfinished < n) (hm : s.outside unfinished < m)
    (v : Value) : s.describeWithin n unfinished v = s.describeWithin m unfinished v := by
  induction n generalizing m unfinished v with
  | zero => exact absurd hn (Nat.not_lt_zero _)
  | succ n ih =>
      obtain ⟨m, rfl⟩ : ∃ k, m = k + 1 := ⟨m - 1, by omega⟩
      by_cases met : v.isHandle ∧ v ∈ unfinished
      · rw [describeWithin_of_mem met.1 met.2, describeWithin_of_mem met.1 met.2]
      · rw [not_and] at met
        rw [describeWithin_succ met, describeWithin_succ met]
        exact describeBy_congr fun u hu =>
          ih (outside_lt_of_mem_described hu met hn) (outside_lt_of_mem_described hu met hm) u

theorem describe_eq_describeWithin (h : s.nodes.size + s.lists.size < n) (v : Value) :
    s.describe v = s.describeWithin n [] v :=
  describeWithin_eq (by simp [outside_nil]) (by simpa [outside_nil] using h) v

/-- How a description comes about, with no bound on the depth. The nodes and lists whose own
description is in progress are unfinished. Bare nodes are not described by their fields. -/
inductive Describes (s : Store) : List Value → Value → String → Prop
  /-- Met again inside its own description. -/
  | again {unfinished : List Value} {v : Value} (handle : v.isHandle) (met : v ∈ unfinished) :
      Describes s unfinished v (cutOff v)
  | whole {unfinished : List Value} {v : Value} (below : Value → String)
      (new : v.isHandle → v ∉ unfinished) (known : ∀ id, v = .node id → (s.node id).kind ≠ .bare)
      (parts : ∀ u ∈ s.described v, Describes s (v :: unfinished) u (below u)) :
      Describes s unfinished v (s.describeBy below v)

/-- No bare node can be reached from the value. -/
def Known (s : Store) (v : Value) : Prop :=
  ∀ id, s.Reachable [v] (.node id) → (s.node id).kind ≠ .bare

theorem Known.of_mem_described (h : s.Known v) (hu : u ∈ s.described v) : s.Known u :=
  fun id reached =>
    h id (reachable_of_mem_successors (mem_successors_of_mem_described hu) reached)

theorem describes_describeWithin (known : s.Known v) (hn : s.outside unfinished < n) :
    s.Describes unfinished v (s.describeWithin n unfinished v) := by
  induction n generalizing unfinished v with
  | zero => exact absurd hn (Nat.not_lt_zero _)
  | succ n ih =>
      by_cases met : v.isHandle ∧ v ∈ unfinished
      · rw [describeWithin_of_mem met.1 met.2]
        exact .again met.1 met.2
      · rw [not_and] at met
        rw [describeWithin_succ met]
        refine .whole _ met (fun id same => known id ?_) fun u hu => ?_
        · exact same ▸ .root (by simp)
        · exact ih (known.of_mem_described hu) (outside_lt_of_mem_described hu met hn)

/-- There is one description only. -/
theorem Describes.eq_describeWithin {text : String} (h : s.Describes unfinished v text)
    (hn : s.outside unfinished < n) : text = s.describeWithin n unfinished v := by
  induction h generalizing n with
  | again handle met => rw [describeWithin_of_mem handle met]
  | whole below new _ _ ih =>
      obtain ⟨n, rfl⟩ : ∃ k, n = k + 1 := ⟨n - 1, by omega⟩
      rw [describeWithin_succ new]
      exact describeBy_congr fun u hu => ih u hu (outside_lt_of_mem_described hu new hn)

theorem describes_iff {text : String} (known : s.Known v) :
    s.Describes [] v text ↔ text = s.describe v := by
  have enough : s.outside [] < s.nodes.size + s.lists.size + 1 := by simp [outside_nil]
  constructor
  · exact fun h => h.eq_describeWithin enough
  · rintro rfl
    exact describes_describeWithin known enough

/-- Where there are no cycles nothing is met again, and the parts of a description are
descriptions. -/
theorem describeWithin_eq_describeBy (acyclic : s.AcyclicBelow v) {way : List Value}
    (hway : ∀ u ∈ way, s.Below u v) (hn : s.outside way < n) :
    s.describeWithin n way v = s.describeBy s.describe v := by
  induction acyclic using AcyclicBelow.induct generalizing n way with
  | step v acyclic ih =>
      obtain ⟨n, rfl⟩ : ∃ k, n = k + 1 := ⟨n - 1, by omega⟩
      have new (_ : v.isHandle) : v ∉ way := fun mem => acyclic.not_below (hway v mem)
      rw [describeWithin_succ new]
      refine describeBy_congr fun u hu => ?_
      have held := mem_successors_of_mem_described hu
      have alone : s.describe u = s.describeBy s.describe u :=
        ih u held (by simp) (by simp [outside_nil])
      rw [alone]
      refine ih u held (fun w hw => ?_) (outside_lt_of_mem_described hu new hn)
      rcases List.mem_cons.mp hw with rfl | hw
      · exact .single held
      · exact .tail (hway w hw) held

theorem describe_eq_describeBy (acyclic : s.AcyclicBelow v) :
    s.describe v = s.describeBy s.describe v :=
  describeWithin_eq_describeBy acyclic (by simp) (by simp [outside_nil])

end Store
end ScriptGraph
