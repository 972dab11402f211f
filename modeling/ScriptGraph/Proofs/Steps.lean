import Mathlib.Data.List.InsertIdx
import ScriptGraph.Proofs.Acquaintance

/-!
What a step of a script can come by. It ends with names for known values only, so it reaches
nothing that was lost before it, and parents change in it only by being assigned.
-/

namespace ScriptGraph

open Outset (nothing knows_of_not_isHandle)

namespace Step

/-- Whether the step leaves the settings alone and writes no field in the place of the link to
a parent. -/
def isPlain : Step → Bool
  | configure .. => false
  | setField _ field _ => field ≠ Node.linkName
  | bind .. | unbind _ | render _ | display _ | describe _ | look _ | parent _ | adopt ..
  | setParent .. | push .. | pop .. | same .. | alike .. | append .. | insert .. | delete ..
  | clear _ => true

end Step

/-- Everything that the session has names for is known. -/
structure Outset.Watches (o : Outset) (σ : Session) : Prop where
  world : o.Confines σ.world
  names : ∀ v ∈ σ.names.values, o.Knows σ.world.store v
  settings : σ.settings = .default

namespace Sequence

theorem mem_of_insert {s : Store} {index v x : Value} {items new : List Value}
    (h : insert s index v items = .ok new) (hx : x ∈ new) : x ∈ items ∨ x ∈ [v] := by
  unfold insert at h
  split at h
  · cases h
  · split at h
    · cases h
      rcases List.eq_or_mem_of_mem_insertIdx hx with e | mem
      · exact .inr (List.mem_singleton.mpr e)
      · exact .inl mem
    · cases h

theorem mem_of_delete {s : Store} {index x : Value} {items new : List Value}
    (h : delete s index items = .ok new) (hx : x ∈ new) : x ∈ items := by
  unfold delete at h
  cases located : locate .list s index items.length with
  | error fault =>
      rw [located] at h
      cases h
  | ok position =>
      rw [located] at h
      cases h
      exact List.mem_of_mem_eraseIdx hx

end Sequence

namespace Scripted
variable {o : Outset} {α β : Type}

/-- After a scripted action the names still are for known values. -/
abbrev StaysAt (o : Outset) (act : Scripted α) (σ : Session) (result : α → List Value) : Prop :=
  o.UpholdsAt (·.world.store) o.Watches act σ result

abbrev Stays (o : Outset) (act : Scripted α) (given : List Value) (result : α → List Value) :
    Prop :=
  o.Upholds (·.world.store) o.Watches act given result

variable {given : List Value} {result : α → List Value} {final : β → List Value}

/-- The rest of a scripted action may depend on the session as it is then. -/
theorem get_stays {f : Session → Scripted β}
    (h : ∀ σ, o.Watches σ → (∀ v ∈ given, o.Knows σ.world.store v) → StaysAt o (f σ) σ final) :
    Stays o (MonadState.get >>= f) given final :=
  h

theorem lift_stays {act : Action α} (h : o.Stays act given result) :
    Stays o (Scripted.lift act) given result := by
  intro σ hσ known
  have after := h σ.world hσ.world known
  unfold Outset.UpholdsAt Ends at after
  unfold Outset.UpholdsAt Ends Scripted.lift
  cases hact : act σ.world with
  | ok a w =>
      rw [hact] at after
      exact ⟨⟨after.1, fun v hv => (hσ.names v hv).mono after.2.1, hσ.settings⟩, after.2⟩
  | error fault w =>
      rw [hact] at after
      exact ⟨⟨after.1, fun v hv => (hσ.names v hv).mono after.2, hσ.settings⟩, after.2⟩

theorem query_stays (f : Settings → Store → Except Fault α) (given : List Value) :
    Stays o (query f) given nothing := by
  refine get_stays fun σ hσ known => ?_
  have read : o.Stays (Action.ofExcept (f σ.settings σ.world.store)) given nothing := by
    cases f σ.settings σ.world.store with
    | ok a => exact .pure (by simp [nothing])
    | error fault => exact .throw fault
  exact lift_stays read σ hσ known

theorem shown_stays (v : Value) (given : List Value) : Stays o (shown v) given nothing := by
  refine get_stays fun σ hσ known => ?_
  exact ((query_stays _ given).bind fun _ => .pure (by simp [nothing])) σ hσ known

/-- The settings are no objects, so nothing but names and held values leads anywhere. -/
theorem known_of_watches {σ : Session} (hσ : o.Watches σ) {held : List Value}
    (known : ∀ v ∈ held, o.Knows σ.world.store v) {v : Value}
    (hv : v ∈ held ++ σ.settings.values ++ σ.names.values) : o.Knows σ.world.store v := by
  simp only [List.mem_append] at hv
  rcases hv with (hv | hv) | hv
  · exact known v hv
  · rw [hσ.settings] at hv
    have plain : ∀ v ∈ Settings.default.values, v.isHandle = false := by decide
    exact knows_of_not_isHandle (plain v hv)
  · exact hσ.names v hv

theorem eval_stays (t : Term) (held : List Value) : Stays o (eval t held) held fun v => [v] :=
  get_stays fun σ hσ known => lift_stays
    (Term.eval_stays σ.names (held ++ σ.settings.values) t) σ hσ
    fun _ hv => known_of_watches hσ known hv

theorem evalAll_stays (ts : List Term) (held : List Value) : Stays o (evalAll ts held) held id :=
  get_stays fun σ hσ known => lift_stays
    (Term.evalAll_stays σ.names (held ++ σ.settings.values) ts) σ hσ
    fun _ hv => known_of_watches hσ known hv

theorem bind_stays (name : String) (v : Value) : Stays o (bind name v) [v] nothing := by
  refine fun σ hσ known => ⟨⟨hσ.world, fun u hu => ?_, hσ.settings⟩, .refl _, by simp [nothing]⟩
  simp only [Bindings.values, Bindings.bind, Bindings.unbind, List.map_cons, List.mem_cons] at hu
  rcases hu with rfl | hu
  · exact known u (by simp)
  · exact hσ.names u (List.Sublist.subset (List.filter_sublist.map _) hu)

theorem unbind_stays (name : String) (given : List Value) :
    Stays o (modify fun σ => { σ with names := σ.names.unbind name }) given nothing :=
  fun _ hσ _ => ⟨⟨hσ.world, fun u hu =>
    hσ.names u (List.Sublist.subset (List.filter_sublist.map _) hu), hσ.settings⟩, .refl _,
    by simp [nothing]⟩

/-- What a list is given is known, if it consists of its items and known values. -/
theorem update_stays {id : ListId} {f : Store → List Value → Except Fault (List Value)}
    (given : List Value) (hf : ∀ s items new, f s items = .ok new →
      ∀ v ∈ new, v ∈ items ∨ v ∈ given) :
    o.Stays (update id f) (.list id :: given) nothing := by
  have read :
      o.Stays (Action.query fun s => f s (s.items id)) (.list id :: given) fun vs => vs := by
    refine .query fun w new hw known found v hv => ?_
    rcases hf _ _ _ found v hv with hv | hv
    · exact hw.closed (known (.list id) (by simp)) hv
    · exact known v (by simp [hv])
  refine read.bind fun items => ?_
  exact ((Action.setItems_stays id items).weaken (by simp +contextual)).bind fun _ =>
    .pure (by simp [nothing])

theorem perform_stays {s : Step} (plain : s.isPlain) : Stays o (perform s) [] nothing := by
  cases s with
  | bind name value =>
      refine (eval_stays value []).bind fun v => ?_
      exact ((bind_stays name v).weaken (by simp)).bind fun _ => shown_stays v _
  | unbind name => exact (unbind_stays name _).bind fun _ => .pure (by simp [nothing])
  | configure field value => cases plain
  | render target =>
      refine (eval_stays target []).bind fun v => ?_
      exact (query_stays _ _).bind fun r => shown_stays r _
  | display target =>
      refine (eval_stays target []).bind fun v => ?_
      exact (query_stays _ _).bind fun _ => .pure (by simp [nothing])
  | describe target =>
      refine (eval_stays target []).bind fun v => ?_
      exact (query_stays _ _).bind fun _ => .pure (by simp [nothing])
  | look target => exact (eval_stays target []).bind fun v => shown_stays v _
  | parent target =>
      -- The names are read when the target is at hand, so what they lead to is known only then.
      refine (eval_stays target []).bind fun v => get_stays fun σ hσ known => ?_
      have read : Stays o (do shown (← lift (Action.readField (v :: σ.roots) v "parent")))
          (v :: v :: σ.roots) nothing :=
        (lift_stays (Action.readField_stays (v :: σ.roots) v "parent")).bind
          fun p => shown_stays p _
      refine read σ hσ fun u hu => ?_
      have held : ∀ u ∈ [v, v], o.Knows σ.world.store u := by
        intro u hu
        exact known u (by simp_all)
      exact known_of_watches hσ held hu
  | adopt target child =>
      refine (eval_stays target []).bind fun v => ?_
      refine (lift_stays (Action.seek_stays v _ _)).bind fun _ => ?_
      refine ((eval_stays child [v]).weaken (by simp)).bind fun c => ?_
      have refused (v : Value) (given : List Value) :
          Stays o (lift (Action.refuse v "become_parent_of" : Action Unit)) given nothing :=
        lift_stays (.refuse _ _)
      cases v with
      | node id =>
          exact (lift_stays ((Action.adopt_stays id c).weaken (by simp))).bind fun _ =>
            .pure (by simp [nothing])
      | null | bool _ | int _ _ | real _ _ | text _ _ | list _ =>
          exact (refused _ _).bind fun _ => .pure (by simp [nothing])
  | setParent target parent =>
      refine (eval_stays target []).bind fun v => ?_
      refine (lift_stays (Action.seek_stays v _ _)).bind fun _ => ?_
      refine ((eval_stays parent [v]).weaken (by simp)).bind fun p => ?_
      exact (lift_stays ((Action.assignParent_stays v p).weaken (by simp))).bind fun _ =>
        .pure (by simp [nothing])
  | push target nodes =>
      refine (eval_stays target []).bind fun v => ?_
      refine ((evalAll_stays nodes [v]).weaken (by simp)).bind fun vs => ?_
      exact (lift_stays ((Action.push_stays v vs).weaken (by simp +contextual))).bind fun _ =>
        .pure (by simp [nothing])
  | pop target name =>
      refine (eval_stays target []).bind fun v => ?_
      refine (lift_stays ((Action.popAny_stays v).weaken (by simp))).bind fun last => ?_
      cases name with
      | none => exact shown_stays last _
      | some name =>
          exact ((bind_stays name last).weaken (by simp)).bind fun _ => shown_stays last _
  | setField target field value =>
      refine (eval_stays target []).bind fun v => ?_
      refine ((eval_stays value [v]).weaken (by simp)).bind fun x => ?_
      have other : field ≠ Node.linkName := by simpa [Step.isPlain] using plain
      exact (lift_stays ((Action.assign_stays v other x).weaken (by simp))).bind fun _ =>
        .pure (by simp [nothing])
  | same target other =>
      refine (eval_stays target []).bind fun u => ?_
      exact ((eval_stays other [u]).weaken (by simp)).bind fun v => .pure (by simp [nothing])
  | alike target other =>
      refine (eval_stays target []).bind fun u => ?_
      refine ((eval_stays other [u]).weaken (by simp)).bind fun v => ?_
      exact (query_stays _ _).bind fun _ => .pure (by simp [nothing])
  | append target value =>
      refine (eval_stays target []).bind fun u => ?_
      refine (lift_stays (Action.seek_stays u _ _)).bind fun _ => ?_
      refine ((eval_stays value [u]).weaken (by simp)).bind fun v => lift_stays ?_
      refine ((Action.listFor_stays "append" u).weaken (by simp)).bind fun id => ?_
      refine (update_stays [v] fun s items new done x hx => ?_).weaken (by simp)
      cases done
      exact List.mem_append.mp hx
  | insert target index value =>
      refine (eval_stays target []).bind fun u => ?_
      refine (lift_stays (Action.seek_stays u _ _)).bind fun _ => ?_
      refine ((eval_stays index [u]).weaken (by simp)).bind fun i => ?_
      refine ((eval_stays value [u, i]).weaken (by simp)).bind fun v => lift_stays ?_
      refine ((Action.listFor_stays "insert" u).weaken (by simp)).bind fun id => ?_
      refine (update_stays [v] fun s items new done x hx => ?_).weaken (by simp)
      exact Sequence.mem_of_insert done hx
  | delete target index =>
      refine (eval_stays target []).bind fun u => ?_
      refine ((eval_stays index [u]).weaken (by simp)).bind fun i => ?_
      cases u with
      | list id =>
          refine lift_stays ((update_stays [] fun s items new done x hx => ?_).weaken
            (by simp))
          exact .inl (Sequence.mem_of_delete done hx)
      | null | bool _ | int _ _ | real _ _ | text _ _ | node _ =>
          exact get_stays fun _ hσ _ => ⟨hσ, .refl _⟩
  | clear target =>
      refine (eval_stays target []).bind fun u => lift_stays ?_
      refine ((Action.listFor_stays "clear" u).weaken (by simp)).bind fun id => ?_
      refine (update_stays [] fun s items new done x hx => ?_).weaken (by simp)
      cases done
      cases hx

end Scripted
end ScriptGraph
