import Mathlib.Data.List.Induction
import ScriptGraph.Proofs.Steps

/-!
Parents over whole runs. A node has the parent that was last assigned to it, as long as a
name has led to that parent at the end of every step since. What no name leads to is lost for
good: links to parents keep nothing alive, and no step finds its way back.
-/

namespace ScriptGraph
namespace Session
variable {σ : Session}

/-- Some name leads to the value, through fields and lists. -/
def Leads (σ : Session) (v : Value) : Prop :=
  σ.world.store.Reachable σ.names.values v

/-- What holds between steps: whatever names lead to is in the store, and every parent that is
recorded is one that they lead to. -/
structure Tidy (σ : Session) : Prop where
  settings : σ.settings = .default
  has {v : Value} : σ.Leads v → v.isHandle → σ.world.store.Has v
  unmasked (id : NodeId) : (σ.world.store.node id).override? Node.linkName = none
  parents {x p : NodeId} : (σ.world.store.node x).parent = some p → σ.Leads (.node p)

theorem tidy_start : start.Tidy where
  settings := rfl
  has h _ := by
    have none : ∀ v, ¬ start.Leads v := fun v h =>
      List.not_mem_nil (Store.mem_of_reachable (fun _ hr => hr) (by simp) h)
    exact absurd h (none _)
  unmasked _ := rfl
  parents h := by cases h

/-- The default settings are no objects and lead nowhere. -/
theorem reachable_roots_iff (h : σ.settings = .default) {v : Value} (handle : v.isHandle) :
    σ.world.store.Reachable σ.roots v ↔ σ.Leads v := by
  constructor
  · intro reached
    refine Store.reachable_of_reachable reached (fun r hr hh => ?_) handle
    rcases List.mem_append.mp hr with hr | hr
    · have plain : ∀ v ∈ Settings.default.values, v.isHandle = false := by decide
      rw [plain r (h ▸ hr)] at hh
      cases hh
    · exact .root hr
  · intro reached
    exact Store.reachable_of_reachable reached
      (fun r hr _ => .root (List.mem_append_right _ hr)) handle

/-- Where a step sets out from. -/
def outset (σ : Session) : Outset :=
  ⟨σ.world.store, σ.names.values⟩

theorem Tidy.watches (h : σ.Tidy) :
    σ.outset.Watches { σ with world := { σ.world with journal := [], links := [] } } where
  world := {
    grows := .refl _
    closed := by
      intro u v hu hv handle
      have known := hu (Store.isHandle_of_mem_successors hv)
      have reached : σ.Leads v := .step (known.2 known.1) hv
      exact ⟨h.has reached handle, fun _ => reached⟩
    parents := fun _ => rfl
    unmasked := h.unmasked }
  names v hv handle := ⟨h.has (.root hv) handle, fun _ => .root hv⟩
  settings := h.settings

/-- What a step makes of a session. -/
structure StepLaw (σ σ' : Session) : Prop where
  tidy : σ'.Tidy
  grows : σ.world.store.Grows σ'.world.store
  /-- Nothing that was lost is found again. -/
  lost {v : Value} : v.isHandle → σ.world.store.Has v → σ'.Leads v → σ.Leads v
  /-- A parent is the one last assigned, in this step or before it, if names lead to it. -/
  parent (x p : NodeId) : (σ'.world.store.node x).parent = some p ↔
    (σ'.world.lastLink x).getD (σ.world.store.node x).parent = some p ∧ σ'.Leads (.node p)

theorem leads_collect (σ : Session) (v : Value) : σ.collect.Leads v ↔ σ.Leads v := by
  have same : σ.collect.world.store.successors = σ.world.store.successors :=
    funext (σ.world.store.successors_sweep σ.roots)
  constructor
  · intro h
    induction h with
    | root mem => exact .root mem
    | step _ mem ih => exact .step ih (same ▸ mem)
  · intro h
    induction h with
    | root mem => exact .root mem
    | step _ mem ih => exact .step ih (same ▸ mem)

/-- Once parents are forgotten that are lost, everything is tidy again. -/
theorem stepLaw_collect {σ' : Session} (h : σ.outset.Watches σ') : StepLaw σ σ'.collect := by
  have known {v : Value} (leads : σ'.collect.Leads v) : σ.outset.Knows σ'.world.store v :=
    h.world.knows_of_reachable h.names ((leads_collect σ' v).mp leads)
  have grows : σ'.world.store.Grows σ'.collect.world.store := by
    simp [Store.Grows, collect, Store.sweep]
  have parent (x p : NodeId) : (σ'.collect.world.store.node x).parent = some p ↔
      (σ'.collect.world.lastLink x).getD (σ.world.store.node x).parent = some p ∧
        σ'.collect.Leads (.node p) := by
    rw [leads_collect, ← reachable_roots_iff h.settings rfl]
    change ((σ'.world.store.sweep σ'.roots).node x).parent = some p ↔ _
    rw [Store.parent_sweep, Store.parentAmong_eq_some_iff, h.world.parents]
    rfl
  refine ⟨⟨h.settings, fun leads handle => ?_, fun id => ?_, fun {x p} hp => ?_⟩, ?_, ?_, parent⟩
  · exact grows.has (known leads handle).1
  · change ((σ'.world.store.sweep σ'.roots).node id).override? Node.linkName = none
    rw [Store.node_sweep]
    exact h.world.unmasked id
  · exact ((parent x p).mp hp).2
  · exact h.world.grows.trans grows
  · exact fun handle has leads => (known leads handle).2 has

theorem Tidy.stepLaw (h : σ.Tidy) {s : Step} (plain : s.isPlain) : StepLaw σ (σ.step s).1 := by
  have stays := Scripted.perform_stays plain _ h.watches (by simp)
  unfold Outset.UpholdsAt Ends at stays
  unfold step
  cases performed :
      Scripted.perform s { σ with world := { σ.world with journal := [], links := [] } } with
  | ok reply σ' =>
      rw [performed] at stays
      exact stepLaw_collect stays.1
  | error fault σ' =>
      rw [performed] at stays
      exact stepLaw_collect stays.1

/-- The session after a script. -/
def after (steps : List Step) : Session :=
  steps.foldl (fun σ s => (σ.step s).1) start

theorem after_concat (steps : List Step) (s : Step) :
    after (steps ++ [s]) = ((after steps).step s).1 := by
  simp [after]

theorem tidy_after {steps : List Step} (plain : ∀ s ∈ steps, s.isPlain) : (after steps).Tidy := by
  induction steps using List.reverseRecOn with
  | nil => exact tidy_start
  | append_singleton steps s ih =>
      rw [after_concat]
      exact ((ih fun t ht => plain t (by simp [ht])).stepLaw (plain s (by simp))).tidy

theorem stepLaw_after {steps : List Step} {s : Step} (plain : ∀ t ∈ steps ++ [s], t.isPlain) :
    StepLaw (after steps) (after (steps ++ [s])) := by
  rw [after_concat]
  exact (tidy_after fun t ht => plain t (by simp [ht])).stepLaw (plain s (by simp))

/-- The last assignment of a parent to `x` in the script named `p`, in some step, and a name has
led to `p` at the end of that step and of every later one. -/
def HoldsParent (steps : List Step) (x p : NodeId) : Prop :=
  ∃ i ≤ steps.length,
    (after (steps.take i)).world.lastLink x = some (some p) ∧
    (∀ j, i < j → j ≤ steps.length → (after (steps.take j)).world.lastLink x = none) ∧
    ∀ j, i ≤ j → j ≤ steps.length → (after (steps.take j)).Leads (.node p)

theorem holdsParent_concat (steps : List Step) (s : Step) (x p : NodeId) :
    HoldsParent (steps ++ [s]) x p ↔
      ((after (steps ++ [s])).world.lastLink x = some (some p) ∨
        (after (steps ++ [s])).world.lastLink x = none ∧ HoldsParent steps x p) ∧
      (after (steps ++ [s])).Leads (.node p) := by
  have earlier {i : Nat} (h : i ≤ steps.length) : (steps ++ [s]).take i = steps.take i :=
    List.take_append_of_le_length h
  have last : (steps ++ [s]).take (steps.length + 1) = steps ++ [s] :=
    List.take_of_length_le (by simp)
  simp only [HoldsParent, List.length_append, List.length_singleton]
  constructor
  · rintro ⟨i, hi, linked, since, leads⟩
    have now := leads (steps.length + 1) hi (Nat.le_refl _)
    rw [last] at now
    refine ⟨?_, now⟩
    -- The last assignment was made before the step that is added, or in it.
    rcases Nat.lt_or_eq_of_le hi with hi | rfl
    · have unlinked := since (steps.length + 1) hi (Nat.le_refl _)
      rw [last] at unlinked
      have hi' : i ≤ steps.length := by omega
      rw [earlier hi'] at linked
      refine .inr ⟨unlinked, i, hi', linked, fun j hj hjn => ?_, fun j hj hjn => ?_⟩
      · have := since j hj (by omega)
        rwa [earlier hjn] at this
      · have := leads j hj (by omega)
        rwa [earlier hjn] at this
    · rw [last] at linked
      exact .inl linked
  · rintro ⟨linked | ⟨unlinked, i, hi, linked, since, leads⟩, now⟩
    · refine ⟨steps.length + 1, Nat.le_refl _, by rwa [last], fun j _ _ => by omega,
        fun j _ _ => ?_⟩
      obtain rfl : j = steps.length + 1 := by omega
      rwa [last]
    · refine ⟨i, by omega, by rwa [earlier hi], fun j hj hjn => ?_, fun j hj hjn => ?_⟩
      · rcases Nat.lt_or_eq_of_le hjn with hjn | rfl
        · rw [earlier (by omega)]
          exact since j hj (by omega)
        · rwa [last]
      · rcases Nat.lt_or_eq_of_le hjn with hjn | rfl
        · rw [earlier (by omega)]
          exact leads j hj (by omega)
        · rwa [last]

theorem parent_after_iff {steps : List Step} (plain : ∀ s ∈ steps, s.isPlain) (x p : NodeId) :
    ((after steps).world.store.node x).parent = some p ↔ HoldsParent steps x p := by
  induction steps using List.reverseRecOn with
  | nil =>
      constructor
      · intro h
        cases h
      · rintro ⟨i, -, linked, -⟩
        rw [List.take_nil] at linked
        cases linked
  | append_singleton steps s ih =>
      have before := ih fun t ht => plain t (by simp [ht])
      rw [(stepLaw_after plain).parent, holdsParent_concat, ← before]
      refine and_congr_left fun _ => ?_
      cases (after (steps ++ [s])).world.lastLink x with
      | none => simp
      | some parent => simp

/-- Whatever is reached in the end and was there before, could be reached then. -/
theorem leads_of_leads_append {before rest : List Step} (plain : ∀ s ∈ before ++ rest, s.isPlain)
    {v : Value} (handle : v.isHandle) (has : (after before).world.store.Has v) :
    (after (before ++ rest)).world.store.Has v ∧
      ((after (before ++ rest)).Leads v → (after before).Leads v) := by
  induction rest using List.reverseRecOn with
  | nil =>
      rw [List.append_nil]
      exact ⟨has, id⟩
  | append_singleton rest s ih =>
      rw [← List.append_assoc] at plain ⊢
      obtain ⟨has', leads⟩ := ih fun t ht => plain t (List.mem_append_left _ ht)
      have law := stepLaw_after plain
      exact ⟨law.grows.has has', fun now => leads (law.lost handle has' now)⟩

theorem parent_eq_none_append {before rest : List Step}
    (plain : ∀ s ∈ before ++ rest, s.isPlain) {x : NodeId}
    (orphan : ((after before).world.store.node x).parent = none)
    (unlinked : ∀ j, before.length < j → j ≤ (before ++ rest).length →
      (after ((before ++ rest).take j)).world.lastLink x = none) :
    ((after (before ++ rest)).world.store.node x).parent = none := by
  induction rest using List.reverseRecOn with
  | nil =>
      rw [List.append_nil]
      exact orphan
  | append_singleton rest s ih =>
      rw [← List.append_assoc] at plain unlinked ⊢
      have size : (before ++ rest ++ [s]).length = (before ++ rest).length + 1 :=
        List.length_append
      have still := ih (fun t ht => plain t (List.mem_append_left _ ht)) fun j hj hjn => by
        have earlier := unlinked j hj (by omega)
        rwa [List.take_append_of_le_length hjn] at earlier
      have longer : before.length ≤ (before ++ rest).length := by simp
      have now := unlinked (before ++ rest ++ [s]).length (by omega) (Nat.le_refl _)
      rw [List.take_length] at now
      rw [Option.eq_none_iff_forall_ne_some]
      intro p hp
      have assigned := ((stepLaw_after plain).parent x p).mp hp
      rw [now, still] at assigned
      cases assigned.1

/-- Reading the parent of a node gives the value. -/
def ReadsParent (σ : Session) (x : NodeId) (v : Value) : Prop :=
  Action.readField (.node x :: σ.roots) (.node x) "parent" σ.world = .ok v σ.world

/-- Between steps a parent reads as it is recorded. -/
theorem Tidy.readsParent_iff (h : σ.Tidy) {x : NodeId} {v : Value} :
    σ.ReadsParent x v ↔ (σ.world.store.node x).parent.elim .null .node = v := by
  have recorded : σ.world.store.parentAmong (.node x :: σ.roots) x =
      (σ.world.store.node x).parent := by
    cases parent : (σ.world.store.node x).parent with
    | none => rw [Store.parentAmong, parent, Option.filter_none]
    | some p =>
        have reached := (reachable_roots_iff h.settings rfl).mpr (h.parents parent)
        refine Store.parentAmong_eq_some_iff.mpr ⟨parent, ?_⟩
        exact Store.reachable_of_reachable reached
          (fun r hr _ => .root (List.mem_cons_of_mem _ hr)) rfl
  rw [ReadsParent, Action.readField_parent (h.unmasked x), recorded]
  constructor
  · intro e
    cases e
    rfl
  · rintro rfl
    rfl

theorem Tidy.readsParent_node_iff (h : σ.Tidy) {x p : NodeId} :
    σ.ReadsParent x (.node p) ↔ (σ.world.store.node x).parent = some p := by
  rw [h.readsParent_iff]
  cases (σ.world.store.node x).parent <;> simp

theorem Tidy.readsParent_null_iff (h : σ.Tidy) {x : NodeId} :
    σ.ReadsParent x .null ↔ (σ.world.store.node x).parent = none := by
  rw [h.readsParent_iff]
  cases (σ.world.store.node x).parent <;> simp

/-- The laws of parents at the end of a script. -/
structure ParentLaws (steps : List Step) : Prop where
  /-- A node has the parent last assigned to it, as long as names lead to that. -/
  parent (x p : NodeId) : (after steps).ReadsParent x (.node p) ↔ HoldsParent steps x p
  no_parent (x : NodeId) : (∀ p, ¬ HoldsParent steps x p) → (after steps).ReadsParent x .null
  /-- A node is not kept alive by being a parent. -/
  alive (x p : NodeId) : (after steps).ReadsParent x (.node p) → (after steps).Leads (.node p)
  /-- A node that is lost at the end of some step stays lost. -/
  lost (i : Nat) (n : NodeId) : i ≤ steps.length →
    n.index < (after (steps.take i)).world.store.nodes.size →
    ¬ (after (steps.take i)).Leads (.node n) → ¬ (after steps).Leads (.node n)
  /-- A node without a parent has none until it is assigned one. -/
  orphaned (i : Nat) (x : NodeId) : i ≤ steps.length →
    (after (steps.take i)).ReadsParent x .null →
    (∀ j, i < j → j ≤ steps.length → (after (steps.take j)).world.lastLink x = none) →
    (after steps).ReadsParent x .null

/-- Parents are weak over whole runs. -/
theorem parentLaws_of_isPlain {steps : List Step} (plain : ∀ s ∈ steps, s.isPlain) :
    ParentLaws steps := by
  have tidy := tidy_after plain
  have split (i : Nat) : ∀ s ∈ steps.take i ++ steps.drop i, s.isPlain := by
    rw [List.take_append_drop]
    exact plain
  refine ⟨fun x p => ?_, fun x none => ?_, fun x p reads => ?_, fun i n hi has gone leads => ?_,
    fun i x hi orphan unlinked => ?_⟩
  · rw [tidy.readsParent_node_iff, parent_after_iff plain]
  · rw [tidy.readsParent_null_iff, Option.eq_none_iff_forall_ne_some]
    exact fun p parent => none p ((parent_after_iff plain x p).mp parent)
  · exact tidy.parents (tidy.readsParent_node_iff.mp reads)
  · have back := leads_of_leads_append (split i) (v := .node n) rfl has
    rw [List.take_append_drop] at back
    exact gone (back.2 leads)
  · have before : (after (steps.take i)).Tidy :=
      tidy_after fun s hs => plain s (List.mem_of_mem_take hs)
    have still := parent_eq_none_append (split i) (before.readsParent_null_iff.mp orphan)
    rw [List.take_append_drop, List.length_take_of_le hi] at still
    exact tidy.readsParent_null_iff.mpr (still unlinked)

/-- An empty statement is registered in a program, then in another one that is let go. -/
def adoptedTwice : List Step :=
  [.bind "m" (.construct .program [] [] []), .bind "e" (.construct .empty [.ref "m"] [] []),
    .bind "k" (.construct .program [] [] []), .push (.ref "k") [.ref "e"], .unbind "k"]

theorem adoptedTwice_parentLaws :
    (after (adoptedTwice.take 3)).ReadsParent ⟨1⟩ (.node ⟨0⟩) ∧
      (after (adoptedTwice.take 4)).ReadsParent ⟨1⟩ (.node ⟨2⟩) ∧
      (after adoptedTwice).ReadsParent ⟨1⟩ .null ∧ ParentLaws adoptedTwice :=
  ⟨rfl, rfl, rfl, parentLaws_of_isPlain (by decide)⟩

/-- The link of a registered statement is overwritten from outside. -/
def overwritten : List Step :=
  [.bind "m" (.construct .program [] [] []), .bind "e" (.construct .empty [.ref "m"] [] []),
    .setField (.ref "e") Node.linkName .null]

theorem not_parent_of_holdsParent :
    HoldsParent overwritten ⟨1⟩ ⟨0⟩ ∧ (after overwritten).ReadsParent ⟨1⟩ .null := by
  refine ⟨⟨2, by decide, by decide, fun j hj hjn => ?_, fun j hj hjn => .root ?_⟩, rfl⟩
  · obtain rfl : j = 3 := by
      change j ≤ 3 at hjn
      omega
    decide
  · change j ≤ 3 at hjn
    obtain rfl | rfl : j = 2 ∨ j = 3 := by omega
    · decide
    · decide

end Session
end ScriptGraph
