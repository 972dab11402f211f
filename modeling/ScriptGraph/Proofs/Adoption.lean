import ScriptGraph.Construct

/-!
What a new node takes in. Children are adopted in the order of the arguments they come from, and
the first value that cannot be adopted ends it, where everything before it has been.
-/

namespace ScriptGraph

namespace Kind

/-- The arguments that a construction takes its children from, in the order of adoption. -/
def slots (kind : Kind) (args : List (String × Value)) : List Slot :=
  let arg (name : String) : Value := (args.lookup name).getD .null
  let body (name : String) : List Slot := if arg name = .null then [] else [.every (arg name)]
  match kind with
  | bare | empty | boolean => []
  | program => ((args.lookup "elements").map Slot.every).toList
  | block => body "statements"
  | conditional =>
    [.one (arg "condition"), .one (arg "then_statement"), .one (arg "else_statement")]
  | caseGroup => [.nodesAmong (arg "labels"), .every (arg "statements")]
  | switch => .one (arg "discriminant") :: body "members"
  | declarator => [.one (arg "initializer")]
  | declaration => [.every (arg "declarators")]
  | function => [.one (arg "body")]

end Kind

namespace Store

/-- What is to be adopted for a slot. If it has to be a sequence and is none, that is what the
construction comes upon. -/
def offered (s : Store) : Slot → List (Option Value)
  | .one v => [some v]
  | .every v => (s.iterate v).toOption.elim [none] (·.map some)
  | .nodesAmong v =>
    (s.iterate v).toOption.elim [none] fun vs => (vs.filter fun v => v matches .node _).map some

/-- Whether adoption gets past it: null is passed over, and a node taken in unless something was
set in the place of the operation. -/
def accepts (s : Store) : Option Value → Bool
  | some .null => true
  | some (.node n) => ((s.node n).override? "set_parent").isNone
  | some _ | none => false

/-- The nodes that are adopted before the first value that cannot be. -/
def adoptedFrom (s : Store) (offers : List (Option Value)) : List NodeId :=
  (offers.takeWhile s.accepts).filterMap fun
    | some (.node n) => some n
    | _ => none

/-- The nodes that a construction adopts from its arguments. -/
def adopted (s : Store) (kind : Kind) (args : Arguments) : List NodeId :=
  match args.assign kind.signature with
  | .ok assigned => s.adoptedFrom ((kind.slots assigned).flatMap s.offered)
  | .error _ => []

variable {s s' : Store}

theorem offered_congr (h : ∀ l, s'.items l = s.items l) : s'.offered = s.offered := by
  have same (v : Value) : (s'.iterate v).toOption = (s.iterate v).toOption := by
    cases v with
    | list l => rw [iterate, iterate, h]
    | null | bool _ | int _ _ | real _ _ | text _ _ | node _ => rfl
  funext slot
  cases slot with
  | one v => rfl
  | every v | nodesAmong v => simp only [offered, same]

theorem accepts_congr
    (h : ∀ id, (s'.node id).override? "set_parent" = (s.node id).override? "set_parent") :
    s'.accepts = s.accepts := by
  funext offer
  rcases offer with _ | v
  · rfl
  · cases v with
    | node n => simp only [accepts, h]
    | null | bool _ | int _ _ | real _ _ | text _ _ | list _ => rfl

theorem adoptedFrom_append (s : Store) (xs ys : List (Option Value)) :
    s.adoptedFrom (xs ++ ys) =
      s.adoptedFrom xs ++ if xs.all s.accepts then s.adoptedFrom ys else [] := by
  induction xs with
  | nil => rfl
  | cons x xs ih =>
      cases accepted : s.accepts x with
      | false => simp [adoptedFrom, accepted]
      | true =>
          simp only [adoptedFrom, List.cons_append, List.takeWhile_cons, accepted, if_true,
            List.all_cons, Bool.true_and, List.filterMap_cons] at ih ⊢
          split <;> simp [ih]

theorem mem_adoptedFrom_cons {x : Option Value} {xs : List (Option Value)} {id : NodeId} :
    id ∈ s.adoptedFrom (x :: xs) ↔
      s.accepts x ∧ (x = some (.node id) ∨ id ∈ s.adoptedFrom xs) := by
  cases accepted : s.accepts x with
  | false => simp [adoptedFrom, accepted]
  | true =>
      rcases x with _ | v
      · cases accepted
      · cases v with
        | node n => simp [adoptedFrom, accepted, eq_comm]
        | null | bool _ | int _ _ | real _ _ | text _ _ | list _ => simp [adoptedFrom, accepted]

theorem adoptedFrom_congr (h : s'.accepts = s.accepts) :
    s'.adoptedFrom = s.adoptedFrom := by
  funext offers
  rw [adoptedFrom, adoptedFrom, h]

theorem label_refusal (s : Store) (v : Value) (member : String) :
    (s.refusal v member).label ≠ "InvalidArgument" := by
  unfold refusal
  split
  · split <;> simp [Fault.label]
  · simp [Fault.label]

end Store

namespace World

/-- The world once a node has adopted others. -/
def adopting (parent : NodeId) (nodes : List NodeId) (w : World) : World :=
  nodes.foldl (fun w n => w.link n (some parent)) w

variable {w : World} {parent : NodeId} {nodes : List NodeId}

theorem adopting_append (parent : NodeId) (nodes more : List NodeId) (w : World) :
    w.adopting parent (nodes ++ more) = (w.adopting parent nodes).adopting parent more :=
  List.foldl_append

theorem node_adopting {id : NodeId} (h : id.index < w.store.nodes.size) :
    (w.adopting parent nodes).store.node id =
      if id ∈ nodes then (w.store.node id).setParent (some parent) else w.store.node id :=
  node_foldl_of_link (g := fun w n => w.link n (some parent)) (fun _ _ _ => rfl)
    (fun w n => w.store.size_setParent n _) fun _ => h

theorem lists_adopting (parent : NodeId) (nodes : List NodeId) (w : World) :
    (w.adopting parent nodes).store.lists = w.store.lists := by
  induction nodes generalizing w with
  | nil => rfl
  | cons n nodes ih => exact ih (w.link n (some parent))

theorem size_adopting (parent : NodeId) (nodes : List NodeId) (w : World) :
    (w.adopting parent nodes).store.nodes.size = w.store.nodes.size := by
  induction nodes generalizing w with
  | nil => rfl
  | cons n nodes ih => exact (ih (w.link n (some parent))).trans (w.store.size_setParent n _)

theorem override?_adopting (parent : NodeId) (nodes : List NodeId) (w : World) (id : NodeId)
    {member : String} (h : member ≠ Node.linkName) :
    ((w.adopting parent nodes).store.node id).override? member =
      (w.store.node id).override? member := by
  induction nodes generalizing w with
  | nil => rfl
  | cons n nodes ih =>
      exact (ih (w.link n (some parent))).trans (w.store.override?_setParent n _ id h)

theorem accepts_adopting (parent : NodeId) (nodes : List NodeId) (w : World) :
    (w.adopting parent nodes).store.accepts = w.store.accepts :=
  Store.accepts_congr fun id => override?_adopting parent nodes w id (by decide)

theorem offered_adopting (parent : NodeId) (nodes : List NodeId) (w : World) :
    (w.adopting parent nodes).store.offered = w.store.offered :=
  Store.offered_congr fun l => by rw [Store.items, Store.items, lists_adopting]

end World

namespace Action

/-- The action adopts what is offered up to the first value that cannot be adopted, where it
fails. It rejects no argument. -/
def Takes (act : Action Unit) (parent : NodeId) (w : World) (offers : List (Option Value)) : Prop :=
  if offers.all w.store.accepts then
    act w = .ok () (w.adopting parent (w.store.adoptedFrom offers))
  else
    ∃ fault, act w = .error fault (w.adopting parent (w.store.adoptedFrom offers)) ∧
      fault.label ≠ "InvalidArgument"

namespace Takes
variable {act next : Action Unit} {parent : NodeId} {w : World} {xs ys : List (Option Value)}

theorem nil : Takes (pure ()) parent w [] :=
  rfl

/-- One adoption after the other. -/
theorem bind (h : Takes act parent w xs)
    (k : ∀ nodes, Takes next parent (w.adopting parent nodes) ys) :
    Takes (act >>= fun _ => next) parent w (xs ++ ys) := by
  unfold Takes at h ⊢
  rw [List.all_append, Store.adoptedFrom_append]
  by_cases first : xs.all w.store.accepts
  · rw [if_pos first] at h
    have rest := k (w.store.adoptedFrom xs)
    have accepts := World.accepts_adopting parent (w.store.adoptedFrom xs) w
    unfold Takes at rest
    rw [accepts, Store.adoptedFrom_congr accepts, ← World.adopting_append] at rest
    rw [bind_of_ok h, first, Bool.true_and, if_pos rfl]
    exact rest
  · rw [if_neg first] at h
    obtain ⟨fault, failed, label⟩ := h
    rw [(Bool.not_eq_true _).mp first, Bool.false_and, if_neg Bool.false_ne_true,
      if_neg Bool.false_ne_true, List.append_nil]
    exact ⟨fault, bind_of_error failed, label⟩

end Takes

theorem adopt_takes {parent : NodeId} {w : World}
    (own : (w.store.node parent).override? "become_parent_of" = none) (v : Value) :
    Takes (adopt parent v) parent w [some v] := by
  have refused (v : Value) (hv : w.store.accepts (some v) = false)
      (failed : adopt parent v w = .error (.lacks (w.store.typeName v) "set_parent") w) :
      Takes (adopt parent v) parent w [some v] := by
    simp [Takes, hv, Store.adoptedFrom, failed, World.adopting, Fault.label]
  cases v with
  | null => exact (bind_of_ok (expectOwn_of_none own)).trans rfl
  | node child =>
      cases free : (w.store.node child).override? "set_parent" with
      | none =>
          simp [Takes, Store.accepts, free, adopt_node own free, Store.adoptedFrom, World.adopting]
      | some u =>
          have failed : adopt parent (.node child) w =
              .error (w.store.refusal (.node child) "set_parent") w :=
            (bind_of_ok (expectOwn_of_none own)).trans (bind_of_error (expectOwn_of_some free))
          simp [Takes, Store.accepts, free, Store.adoptedFrom, failed, World.adopting,
            Store.label_refusal]
  | bool _ | int _ _ | real _ _ | text _ _ | list _ =>
      exact refused _ rfl ((bind_of_ok (expectOwn_of_none own)).trans rfl)

theorem adoptAll_takes {parent : NodeId} {w : World}
    (own : (w.store.node parent).override? "become_parent_of" = none) (vs : List Value) :
    Takes (adoptAll parent vs) parent w (vs.map some) := by
  induction vs generalizing w with
  | nil => exact .nil
  | cons v vs ih =>
      refine (adopt_takes own v).bind fun nodes => ih ?_
      rw [World.override?_adopting parent nodes w parent (by decide)]
      exact own

theorem adoptSlot_takes {parent : NodeId} {w : World}
    (own : (w.store.node parent).override? "become_parent_of" = none) (slot : Slot) :
    Takes (adoptSlot parent slot) parent w (w.store.offered slot) := by
  have sequence (v : Value) (select : List Value → List Value) :
      Takes (do adoptAll parent (select (← query (·.iterate v)))) parent w
        ((w.store.iterate v).toOption.elim [none] fun vs => (select vs).map some) := by
    cases found : w.store.iterate v with
    | ok vs =>
        have read : query (·.iterate v) w = .ok vs w := by
          change ofExcept (w.store.iterate v) w = _
          rw [found]
          rfl
        have taken := adoptAll_takes own (select vs)
        unfold Takes at taken ⊢
        rw [bind_of_ok read]
        exact taken
    | error fault =>
        have read : query (·.iterate v) w = .error fault w := by
          change ofExcept (w.store.iterate v) w = _
          rw [found]
          rfl
        have label : fault.label ≠ "InvalidArgument" := by
          cases v <;> cases found <;> simp [Fault.label]
        exact ⟨fault, bind_of_error read, label⟩
  cases slot with
  | one v => exact adopt_takes own v
  | every v => exact sequence v id
  | nodesAmong v => exact sequence v _

theorem adoptSlots_takes {parent : NodeId} {w : World}
    (own : (w.store.node parent).override? "become_parent_of" = none) (slots : List Slot) :
    Takes (adoptSlots parent slots) parent w (slots.flatMap w.store.offered) := by
  induction slots generalizing w with
  | nil => exact .nil
  | cons slot slots ih =>
      refine (adoptSlot_takes own slot).bind fun nodes => ?_
      rw [← World.offered_adopting parent nodes w]
      refine ih ?_
      rw [World.override?_adopting parent nodes w parent (by decide)]
      exact own

end Action
end ScriptGraph
