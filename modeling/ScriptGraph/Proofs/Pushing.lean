import ScriptGraph.Proofs.Success

/-!
Pushing any values into a program. Values are taken in one after the other, so two pushes are one
push of all values, apart from what is noted in the journal, and a push that fails has taken in
the values before the first that it cannot take.
-/

namespace ScriptGraph

namespace World

/-- The world without what was noted. -/
def unlogged (w : World) : World :=
  { w with journal := [] }

theorem eq_of_unlogged_eq {w w' : World} (h : w.unlogged = w'.unlogged) :
    w' = { w with journal := w'.journal } := by
  cases w
  cases w'
  simp only [unlogged, World.mk.injEq] at h ⊢
  obtain ⟨store, -, made, links⟩ := h
  exact ⟨store.symm, trivial, made.symm, links.symm⟩

end World

namespace Action
variable {α β : Type}

/-- What an action comes to, apart from what is noted. -/
def outcome (act : Action α) (w : World) : EStateM.Result Fault World α :=
  match act w with
  | .ok a w' => .ok a w'.unlogged
  | .error fault w' => .error fault w'.unlogged

theorem outcome_of_ok {act : Action α} {w w' : World} {a : α} (h : act w = .ok a w') :
    act.outcome w = .ok a w'.unlogged := by
  rw [outcome, h]

theorem outcome_of_error {act : Action α} {w w' : World} {fault : Fault}
    (h : act w = .error fault w') : act.outcome w = .error fault w'.unlogged := by
  rw [outcome, h]

theorem outcome_congr {act act' : Action α} {w w' : World} (h : act w = act' w') :
    act.outcome w = act'.outcome w' := by
  rw [outcome, outcome, h]

/-- Two actions that differ in nothing but what they note, whatever has been noted before. -/
def Matches (act act' : Action α) : Prop :=
  ∀ w journal, act.outcome w = act'.outcome { w with journal }

namespace Matches

theorem pure (a : α) : Matches (Pure.pure a : Action α) (Pure.pure a) :=
  fun _ _ => rfl

theorem throw (fault : Fault) : Matches (MonadExcept.throw fault : Action α) (throw fault) :=
  fun _ _ => rfl

theorem bind {act act' : Action α} {f f' : α → Action β} (h : Matches act act')
    (k : ∀ a, Matches (f a) (f' a)) : Matches (act >>= f) (act' >>= f') := by
  intro w journal
  have same := h w journal
  cases first : act w with
  | ok a w₁ =>
      rw [outcome_of_ok first] at same
      cases second : act' { w with journal } with
      | ok a' w₂ =>
          rw [outcome_of_ok second, EStateM.Result.ok.injEq] at same
          obtain ⟨rfl, worlds⟩ := same
          rw [outcome_congr (bind_of_ok first), outcome_congr (bind_of_ok second),
            World.eq_of_unlogged_eq worlds]
          exact k a w₁ w₂.journal
      | error fault w₂ =>
          rw [outcome_of_error second] at same
          cases same
  | error fault w₁ =>
      rw [outcome_of_error first] at same
      cases second : act' { w with journal } with
      | ok a w₂ =>
          rw [outcome_of_ok second] at same
          cases same
      | error fault' w₂ =>
          rw [outcome_of_error second, EStateM.Result.error.injEq] at same
          rw [outcome_of_error (bind_of_error first), outcome_of_error (bind_of_error second),
            same.1, same.2]

/-- The rest of both actions depends on the same store. -/
theorem store {f f' : Store → Action β} (h : ∀ s, Matches (f s) (f' s)) :
    Matches (Action.store >>= f) (Action.store >>= f') :=
  fun w => h w.store w

theorem record (level level' : Level) (text text' : String) :
    Matches (Action.record level text) (Action.record level' text') :=
  fun _ _ => rfl

theorem refuse (v : Value) (member : String) :
    Matches (Action.refuse v member : Action α) (Action.refuse v member) :=
  store fun _ => throw _

theorem lacks (v : Value) (member : String) :
    Matches (Action.lacks v member : Action α) (Action.lacks v member) :=
  store fun _ => throw _

theorem expectOwn (id : NodeId) (member : String) :
    Matches (Action.expectOwn id member) (Action.expectOwn id member) := by
  refine store fun s => ?_
  split
  · exact refuse _ _
  · exact pure _

theorem adopt (parent : NodeId) (v : Value) :
    Matches (Action.adopt parent v) (Action.adopt parent v) := by
  refine bind (expectOwn _ _) fun _ => ?_
  cases v with
  | null => exact pure _
  | node child => exact bind (expectOwn _ _) fun _ _ _ => rfl
  | bool _ | int _ _ | real _ _ | text _ _ | list _ => exact lacks _ _

theorem appendTo (sequence v : Value) :
    Matches (Action.appendTo sequence v) (Action.appendTo sequence v) := by
  cases sequence with
  | list id => exact fun _ _ => rfl
  | null | bool _ | int _ _ | real _ _ | text _ _ | node _ => exact refuse _ _

theorem pushEach (id : NodeId) (elements : Value) (vs : List Value) :
    Matches (Action.pushEach id elements vs) (Action.pushEach id elements vs) := by
  induction vs with
  | nil => exact pure _
  | cons v vs ih => exact (adopt id v).bind fun _ => (appendTo elements v).bind fun _ => ih

theorem length (v : Value) : Matches (Action.length v) (Action.length v) := by
  cases v with
  | list id => exact store fun _ => pure _
  | text t origin => exact pure _
  | null | bool _ | int _ _ | real _ _ | node _ => exact store fun _ => throw _

end Matches

theorem pushEach_append (id : NodeId) (elements : Value) (xs ys : List Value) :
    pushEach id elements (xs ++ ys) =
      pushEach id elements xs >>= fun _ => pushEach id elements ys := by
  induction xs with
  | nil => rw [List.nil_append, pushEach, pure_bind]
  | cons x xs ih => simp only [List.cons_append, pushEach, ih, bind_assoc]

/-- Nothing can be appended to elements that are no list. -/
theorem list_of_pushEach {id : NodeId} {elements v : Value} {vs : List Value} {w w' : World}
    (h : pushEach id elements (v :: vs) w = .ok () w') : ∃ l, elements = .list l := by
  obtain ⟨_, w₁, -, rest⟩ := ok_of_bind h
  obtain ⟨_, w₂, appended, -⟩ := ok_of_bind rest
  cases elements with
  | list l => exact ⟨l, rfl⟩
  | null | bool _ | int _ _ | real _ _ | text _ _ | node _ => cases appended

end Action

namespace Store
variable {s s' : Store} {l : ListId}

/-- The values that a program takes in before the first one that it cannot. -/
def takenFrom (s : Store) (vs : List Value) : List Value :=
  vs.takeWhile fun v => s.accepts (some v)

instance (l : ListId) : IsPreorder Store (fun s s' => s.Spares s' l) where
  refl s := .refl s l
  trans _ _ _ := .trans

end Store

namespace Action
variable {w : World} {m : NodeId} {l : ListId} {strict : Value} {vs : List Value}

theorem adopt_refused (own : (w.store.node m).override? "become_parent_of" = none) {v : Value}
    (refused : w.store.accepts (some v) = false) : ∃ fault, adopt m v w = .error fault w := by
  have taken := adopt_takes own v
  simp only [Takes, List.all_cons, refused, Bool.false_and, Bool.false_eq_true, if_false] at taken
  obtain ⟨fault, failed, -⟩ := taken
  refine ⟨fault, failed.trans ?_⟩
  simp [Store.adoptedFrom, refused, World.adopting]

/-- The first value that cannot be adopted ends it. -/
theorem pushEach_refused (own : (w.store.node m).override? "become_parent_of" = none)
    (refused : w.store.takenFrom vs ≠ vs) :
    ∃ fault, pushEach m (.list l) vs w =
      .error fault ((w.store.takenFrom vs).foldl (World.receive m l) w) := by
  set test : Value → Bool := fun v => w.store.accepts (some v)
  have split : w.store.takenFrom vs ++ vs.dropWhile test = vs := List.takeWhile_append_dropWhile
  cases rest : vs.dropWhile test with
  | nil =>
      rw [rest, List.append_nil] at split
      exact absurd split refused
  | cons v later =>
      have first : test v = false := by
        have head := List.head?_dropWhile_not test vs
        rw [rest] at head
        exact head
      -- What has been taken in until then does not matter to whether the next one can be.
      have spared := World.foldl_receive_spares m l (w.store.takenFrom vs) w
      have taken : pushEach m (.list l) (w.store.takenFrom vs) w =
          .ok () ((w.store.takenFrom vs).foldl (World.receive m l) w) :=
        pushEach_accepted own fun u hu => List.mem_takeWhile_imp (p := test) hu
      obtain ⟨fault, failed⟩ := adopt_refused (v := v)
        (w := (w.store.takenFrom vs).foldl (World.receive m l) w)
        (by rw [spared.override? m (by decide)]; exact own) (by rw [spared.accepts]; exact first)
      rw [rest] at split
      refine ⟨fault, ?_⟩
      nth_rewrite 1 [← split]
      rw [pushEach_append, bind_of_ok taken, pushEach]
      exact bind_of_error failed

/-- A push that comes to a value that it cannot take. -/
theorem push_refused (program : w.store.shape m = .program strict (.list l))
    (own : ∀ member ∈ ["push", "become_parent_of"], (w.store.node m).override? member = none)
    (refused : w.store.takenFrom vs ≠ vs) :
    ∃ fault, push (.node m) vs w =
      .error fault ((w.store.takenFrom vs).foldl (World.receive m l) w) := by
  obtain ⟨fault, failed⟩ := pushEach_refused (l := l) (own _ (by simp)) refused
  refine ⟨fault, (bind_of_ok (elementsFor_program program (own _ (by simp)))).trans ?_⟩
  exact bind_of_error failed

/-- Pushing does not change where a program keeps its elements, nor whether it can be called. -/
theorem elementsFor_of_spares {target : Value} {found : NodeId × Value} {w' : World}
    (h : elementsFor "push" target w = .ok found w) (spared : w.store.Spares w'.store l) :
    elementsFor "push" target w' = .ok found w' := by
  cases target with
  | node m =>
      cases own : (w.store.node m).override? "push" with
      | some u =>
          have failed : elementsFor "push" (.node m) w = _ := bind_of_error (expectOwn_of_some own)
          cases failed.symm.trans h
      | none =>
          rw [elementsFor_node own] at h
          rw [elementsFor_node ((spared.override? m (by decide)).trans own), spared.shape]
          cases shape : w.store.shape m with
          | program strict elements =>
              rw [shape] at h
              cases h
              rfl
          | bare | empty | boolean _ | block _ | conditional _ _ _ | caseGroup _ _ | switch _ _
          | declarator _ _ | declaration _ | function _ _ _ =>
              rw [shape] at h
              cases h
  | null | bool _ | int _ _ | real _ _ | text _ _ | list _ => cases h

theorem pushEach_spares {id : NodeId} {w' : World} (h : pushEach id (.list l) vs w = .ok () w') :
    w.store.Spares w'.store l := by
  induction vs generalizing w with
  | nil =>
      cases h
      exact .refl _ _
  | cons v vs ih =>
      obtain ⟨_, w₁, adopted, rest⟩ := ok_of_bind h
      obtain ⟨_, w₂, appended, rest⟩ := ok_of_bind rest
      cases appended
      have linked : w.store.Spares w₁.store l := by
        have kept := Keeping.adopt (P := fun s s' => s.Spares s' l)
          (fun s child owner => Store.Spares.setParent s l child owner) id v w
        rw [Ensures, adopted] at kept
        exact kept
      exact (linked.trans (.setItems _ l _)).trans (ih rest)

/-- What follows once the program is found. -/
theorem push_of_found {target elements : Value}
    (found : elementsFor "push" target w = .ok (m, elements) w) (vs : List Value) :
    push target vs w = (do
      pushEach m elements vs
      let count ← length elements
      record .debug
        ("Pushed " ++ vs.length.repr ++ " node(s), module now holds " ++ count.repr)
      return count : Action Nat) w :=
  bind_of_ok found

/-- The second push finds what the first one has left, and goes on from there. -/
theorem push_append_outcome {xs : List Value} (nonempty : xs ≠ []) (target : Value)
    (ys : List Value) (w : World) : (push target (xs ++ ys)).outcome w =
      (do let _ ← push target xs; push target ys : Action Nat).outcome w := by
  cases found : elementsFor "push" target w with
  | error fault w' =>
      have first : push target xs w = .error fault w' := bind_of_error found
      have whole : push target (xs ++ ys) w = .error fault w' := bind_of_error found
      rw [outcome_of_error whole, outcome_of_error (bind_of_error first)]
  | ok place w' =>
      obtain ⟨m, elements⟩ := place
      obtain ⟨rfl, -⟩ := elementsFor_done found
      have whole := push_of_found found (xs ++ ys)
      have first := push_of_found found xs
      rw [pushEach_append, bind_assoc] at whole
      cases pushed : pushEach m elements xs w' with
      | error fault w₁ =>
          rw [outcome_of_error (whole.trans (bind_of_error pushed)),
            outcome_of_error (bind_of_error (first.trans (bind_of_error pushed)))]
      | ok u w₁ =>
          obtain ⟨v, vs, rfl⟩ := List.exists_cons_of_ne_nil nonempty
          obtain ⟨l, rfl⟩ := list_of_pushEach pushed
          rw [bind_of_ok pushed] at whole first
          set journal := w₁.journal ++ [⟨.debug, "Pushed " ++ (v :: vs).length.repr ++
            " node(s), module now holds " ++ (w₁.store.items l).length.repr⟩]
          have done : push target (v :: vs) w' =
            .ok (w₁.store.items l).length { w₁ with journal } := first.trans rfl
          -- The first push has noted something, so from here on the journals differ.
          have spared : w'.store.Spares w₁.store l := pushEach_spares pushed
          have again : elementsFor "push" target { w₁ with journal } =
            .ok (m, .list l) { w₁ with journal } := elementsFor_of_spares found spared
          rw [outcome_congr whole, outcome_congr (bind_of_ok done),
            outcome_congr (push_of_found again ys)]
          refine Matches.bind (.pushEach m (.list l) ys) (fun _ => ?_) w₁ journal
          exact (Matches.length (.list l)).bind fun count =>
            (Matches.record _ _ _ _).bind fun _ => .pure count

end Action

/-- All that a push has done that took in some values at the end of a list and then failed. -/
structure World.Receives (w w' : World) (m : NodeId) (l : ListId) (taken : List Value) : Prop where
  items : w'.store.items l = w.store.items l ++ taken
  lists : ∀ k ≠ l, w'.store.items k = w.store.items k
  nodes : ∀ id : NodeId, id.index < w.store.nodes.size → w'.store.node id =
    if .node id ∈ taken then (w.store.node id).setParent (some m) else w.store.node id
  nothingMade : w'.store.nodes.size = w.store.nodes.size ∧ w'.store.lists.size = w.store.lists.size
  journal : w'.journal = w.journal

theorem World.receives_foldl {w : World} {m : NodeId} {l : ListId}
    (inStore : l.index < w.store.lists.size) (taken : List Value) :
    w.Receives (taken.foldl (World.receive m l) w) m l taken := by
  have spared := foldl_receive_spares m l taken w
  exact ⟨items_foldl_receive inStore, fun k hk => spared.retains (.list k) (by simpa using hk),
    fun _ old => node_foldl_receive fun _ => old, ⟨spared.nodes, spared.lists⟩,
    journal_foldl_receive m l taken w⟩

/-- Two pushes make one, whatever the values and whatever the elements are, and whether they
succeed or not. Where a push fails for one of its values, those before it are elements. -/
theorem Action.push_composes (w : World) (m : NodeId) :
    (∀ xs ys : List Value, xs ≠ [] → (push (.node m) (xs ++ ys)).outcome w =
      (do let _ ← push (.node m) xs; push (.node m) ys : Action Nat).outcome w) ∧
    ∀ strict l vs, w.store.shape m = .program strict (.list l) → l.index < w.store.lists.size →
      (∀ member ∈ ["push", "become_parent_of"], (w.store.node m).override? member = none) →
      (∃ v ∈ vs, ¬ w.store.accepts (some v)) →
      ∃ fault w', push (.node m) vs w = .error fault w' ∧
        w.Receives w' m l (vs.takeWhile fun v => w.store.accepts (some v)) := by
  refine ⟨fun xs ys nonempty => push_append_outcome nonempty _ ys w, ?_⟩
  rintro strict l vs program inStore own ⟨v, mem, refused⟩
  have short : w.store.takenFrom vs ≠ vs := fun all =>
    refused (List.takeWhile_eq_self_iff.mp all v mem)
  obtain ⟨fault, failed⟩ := push_refused program own short
  exact ⟨fault, _, failed, World.receives_foldl inStore _⟩

namespace World

/-- A program with an empty statement, and a literal. -/
def gathering : World :=
  { World.empty with
    store :=
      ⟨#[.ofShape (.program (.bool true) (.list ⟨0⟩)), .ofShape .empty,
        .ofShape (.boolean (.bool true))], #[[.node ⟨1⟩]]⟩ }

/-- The literal and null are taken in, the number is not, and what comes after it is not seen. -/
theorem gathering_push_composes :
    (Action.push (.node ⟨0⟩) ([.node ⟨2⟩, .null] ++ [.int 5, .node ⟨0⟩])).outcome gathering =
      (do
        let _ ← Action.push (.node ⟨0⟩) [.node ⟨2⟩, .null]
        Action.push (.node ⟨0⟩) [.int 5, .node ⟨0⟩] : Action Nat).outcome gathering ∧
    ∃ fault w', Action.push (.node ⟨0⟩) [.node ⟨2⟩, .null, .int 5, .node ⟨0⟩] gathering =
        .error fault w' ∧
      w'.store.items ⟨0⟩ = [.node ⟨1⟩, .node ⟨2⟩, .null] ∧ w'.journal = [] ∧
      (w'.store.node ⟨2⟩).parent = some ⟨0⟩ ∧ w'.store.node ⟨0⟩ = gathering.store.node ⟨0⟩ := by
  obtain ⟨composed, stopped⟩ := Action.push_composes gathering ⟨0⟩
  refine ⟨composed _ _ (by simp), ?_⟩
  obtain ⟨fault, w', failed, received⟩ := stopped (.bool true) ⟨0⟩
    [.node ⟨2⟩, .null, .int 5, .node ⟨0⟩] rfl (by decide) (by decide) ⟨.int 5, by simp, by decide⟩
  refine ⟨fault, w', failed, received.items, received.journal, ?_, received.nodes ⟨0⟩ (by decide)⟩
  rw [received.nodes ⟨2⟩ (by decide)]
  rfl

/-- A program without elements, and an empty statement on which something was set in the place of
its operation. -/
def aloof : World :=
  { World.empty with
    store :=
      ⟨#[.ofShape (.program (.bool true) (.list ⟨0⟩)), ⟨.empty, none, [("set_parent", .null)]⟩],
        #[[]]⟩ }

/-- Before the number there is a node, but it has not become an element; nor has it where
something was set in the place of the push itself. -/
theorem not_receives_overridden :
    (aloof.store.shape ⟨0⟩ = .program (.bool true) (.list ⟨0⟩) ∧
      ∃ fault w', Action.push (.node ⟨0⟩) [.node ⟨1⟩, .int 5] aloof = .error fault w' ∧
        w'.store.items ⟨0⟩ ≠ aloof.store.items ⟨0⟩ ++ [.node ⟨1⟩]) ∧
    blocked.store.shape ⟨0⟩ = .program (.bool true) (.list ⟨0⟩) ∧
      ∃ fault w', Action.push (.node ⟨0⟩) [.node ⟨0⟩, .int 5] blocked = .error fault w' ∧
        w'.store.items ⟨0⟩ ≠ blocked.store.items ⟨0⟩ ++ [.node ⟨0⟩] :=
  ⟨⟨rfl, _, _, rfl, by decide⟩, rfl, _, _, rfl, by decide⟩

end World
end ScriptGraph
