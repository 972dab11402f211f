import ScriptGraph.Render

/-!
The bound on the depth of rendering is exact. Rendering is compared with a second
evaluation that has no bound but knows which nodes it is in the middle of. Each
agrees with the other wherever it does not give up, so the two give up on the same
nodes, and the bound that the store sets is never too low.
-/

namespace ScriptGraph

/-- The same outcome, unless the first one failed with the given fault. -/
def AgreesUpTo {α : Type} (fault : Fault) (x y : Except Fault α) : Prop :=
  x = .error fault ∨ x = y

namespace AgreesUpTo
variable {α β : Type} {fault : Fault}

theorem refl (x : Except Fault α) : AgreesUpTo fault x x :=
  .inr rfl

theorem trans {x y z : Except Fault α} (h : AgreesUpTo fault x y) (k : AgreesUpTo fault y z) :
    AgreesUpTo fault x z := by
  rcases h with rfl | rfl
  · exact .inl rfl
  · exact k

theorem antisymm {x y : Except Fault α} (h : AgreesUpTo fault x y) (k : AgreesUpTo fault y x) :
    x = y := by
  rcases h with rfl | rfl
  · rcases k with rfl | rfl <;> rfl
  · rfl

theorem bind {x y : Except Fault α} {f g : α → Except Fault β} (h : AgreesUpTo fault x y)
    (k : ∀ a, AgreesUpTo fault (f a) (g a)) : AgreesUpTo fault (x >>= f) (y >>= g) := by
  rcases h with rfl | rfl
  · exact .inl rfl
  · cases x with
    | error e => exact .inr rfl
    | ok a => exact k a

theorem mapM {f g : α → Except Fault β} (h : ∀ a, AgreesUpTo fault (f a) (g a))
    (as : List α) : AgreesUpTo fault (as.mapM f) (as.mapM g) := by
  induction as with
  | nil => exact refl _
  | cons a as ih =>
      simp only [List.mapM_cons]
      exact (h a).bind fun b => ih.bind fun bs => refl _

end AgreesUpTo

/-- The outcome with another fault in the place of endlessness. -/
def relabel {α : Type} (fault : Fault) : Except Fault α → Except Fault α
  | .ok a => .ok a
  | .error e => .error (if e = .endless then fault else e)

section
variable {α β : Type} (fault : Fault)

@[simp] theorem relabel_pure (a : α) : relabel fault (pure a) = pure a := rfl

@[simp] theorem relabel_bind (x : Except Fault α) (f : α → Except Fault β) :
    relabel fault (x >>= f) = relabel fault x >>= fun a => relabel fault (f a) := by
  cases x <;> rfl

@[simp] theorem relabel_map (f : α → β) (x : Except Fault α) :
    relabel fault (f <$> x) = f <$> relabel fault x := by
  cases x <;> rfl

@[simp] theorem relabel_mapM (f : α → Except Fault β) (as : List α) :
    relabel fault (as.mapM f) = as.mapM fun a => relabel fault (f a) := by
  induction as with
  | nil => rfl
  | cons a as ih => simp [List.mapM_cons, ih]

/-- What operands are refused for is never that a rendering is endless. -/
theorem relabel_operand (s : Store) (v : Value) :
    relabel fault (s.iterate v) = s.iterate v ∧ relabel fault (s.pieces v) = s.pieces v ∧
      relabel fault (s.expectText v) = s.expectText v ∧
      relabel fault (s.expectStart v) = s.expectStart v ∧
      relabel fault (s.expectWritten v) = s.expectWritten v := by
  cases v <;> exact ⟨rfl, rfl, rfl, rfl, rfl⟩

@[simp] theorem relabel_expectPieces (s : Store) (position : Nat) (vs : List Value) :
    relabel fault (s.expectPieces position vs) = s.expectPieces position vs := by
  induction vs generalizing position with
  | nil => rfl
  | cons v vs ih =>
      cases v with
      | text t origin => simp [Store.expectPieces, ih]
      | null | bool _ | int _ _ | real _ _ | list _ | node _ => rfl

theorem relabel_refusal {α : Type} (s : Store) (v : Value) (member : String) :
    relabel fault (.error (s.refusal v member) : Except Fault α) =
      .error (s.refusal v member) := by
  have real : s.refusal v member ≠ .endless := by
    unfold Store.refusal
    split
    · split <;> simp
    · simp
  simp [relabel, real]

@[simp] theorem relabel_repeatCount (memory : Memory) (v : Value) :
    relabel fault (repeatCount memory v) = repeatCount memory v := by
  unfold repeatCount
  split
  · rfl
  · split
    · rfl
    · split <;> rfl

@[simp] theorem relabel_checkWidth (v : Value) : relabel fault (checkWidth v) = checkWidth v := by
  unfold checkWidth
  split
  · split <;> rfl
  · split <;> rfl
  · rfl

@[simp] theorem relabel_indentValue (memory : Memory) (s : Store) (v width : Value) :
    relabel fault (indentValue memory s v width) = indentValue memory s v width := by
  simp only [indentValue, relabel_bind, relabel_checkWidth, relabel_repeatCount]
  cases v with
  | text t origin => rfl
  | null | bool _ | int _ _ | real _ _ | list _ | node _ => simp [relabel_refusal]
end


namespace Shape
variable {fault : Fault} {settings other : Settings} {s : Store}
variable {f g : NodeId → Except Fault Value}

/-- Rendering keeps agreement: of the nodes it asks for, and of the two uses it has for a width.
Nothing that fails in between is caught. -/
theorem render_agreesUpTo_of_indent
    (hi : ∀ u, AgreesUpTo fault (indentValue settings.memory s u settings.indentWidth)
      (indentValue other.memory s u other.indentWidth))
    (hp : AgreesUpTo fault settings.separator other.separator)
    (hd : settings.directive = other.directive)
    (h : ∀ id, AgreesUpTo fault (f id) (g id)) (shape : Shape) :
    AgreesUpTo fault (shape.render settings s f) (shape.render other s g) := by
  have value (v : Value) : AgreesUpTo fault (s.renderValue f v) (s.renderValue g v) := by
    cases v with
    | node id => exact h id
    | null | bool _ | int _ _ | real _ _ | text _ _ | list _ => exact .refl _
  have text (v : Value) : AgreesUpTo fault (s.renderText f v) (s.renderText g v) :=
    (value v).bind fun _ => .refl _
  have display (v : Value) : AgreesUpTo fault (s.display f v) (s.display g v) := by
    cases v with
    | node id => exact (h id).bind fun _ => .refl _
    | null | bool _ | int _ _ | real _ _ | text _ _ | list _ => exact .refl _
  have inner (v : Value) :
      AgreesUpTo fault (renderInner settings s f v) (renderInner other s g v) :=
    (value v).bind hi
  have body (v : Value) :
      AgreesUpTo fault (renderBody settings s f v) (renderBody other s g v) := by
    unfold renderBody
    split
    · exact .refl _
    · exact AgreesUpTo.bind (.refl _) fun us => (AgreesUpTo.mapM inner us).bind fun _ => .refl _
  cases shape with
  | bare | empty | boolean _ => exact .refl _
  | program strict elements =>
      have opening : renderOpening settings s strict = renderOpening other s strict := by
        simp only [renderOpening, Settings.opening, hd]
      simp only [render, opening]
      exact AgreesUpTo.bind (.refl _) fun _ => AgreesUpTo.bind (.refl _) fun us =>
        (AgreesUpTo.mapM text us).bind fun _ => .refl _
  | block statements => exact (body _).bind fun _ => .refl _
  | conditional condition consequent alternative =>
      refine (text _).bind fun _ => (text _).bind fun _ => ?_
      split
      · exact .refl _
      · exact (text _).bind fun _ => .refl _
  | caseGroup labels statements =>
      have heads : AgreesUpTo fault (renderHeads s f labels) (renderHeads s g labels) := by
        unfold renderHeads
        split
        · exact AgreesUpTo.bind (.refl _)
            (AgreesUpTo.mapM fun label => (display label).bind fun _ => .refl _)
        · exact .refl _
      exact heads.bind fun _ => AgreesUpTo.bind (.refl _) fun us =>
        (AgreesUpTo.mapM inner us).bind fun _ => .refl _
  | switch discriminant groups =>
      exact (text _).bind fun _ => (body _).bind fun _ => .refl _
  | declarator name initial =>
      simp only [render]
      split
      · exact .refl _
      · exact AgreesUpTo.bind (.refl _) fun _ => (text _).bind fun _ => .refl _
  | declaration declarators =>
      exact AgreesUpTo.bind (.refl _) fun us => (AgreesUpTo.mapM value us).bind fun _ =>
        hp.bind fun _ => .refl _
  | function name params body =>
      exact AgreesUpTo.bind (.refl _) fun _ => AgreesUpTo.bind (.refl _) fun _ =>
        AgreesUpTo.bind (.refl _) fun _ => (text _).bind fun _ => .refl _

/-- At one width, rendering keeps agreement of the memory. -/
theorem render_agreesUpTo (hw : settings.indentWidth = other.indentWidth)
    (hd : settings.directive = other.directive)
    (hm : ∀ v, AgreesUpTo fault (repeatCount settings.memory v) (repeatCount other.memory v))
    (h : ∀ id, AgreesUpTo fault (f id) (g id)) (shape : Shape) :
    AgreesUpTo fault (shape.render settings s f) (shape.render other s g) := by
  refine render_agreesUpTo_of_indent (fun u => ?_) ?_ hd h shape
  · simp only [indentValue, hw]
    exact AgreesUpTo.bind (.refl _) fun _ => (hm _).bind fun _ => .refl _
  · simp only [Settings.separator, hw]
    exact (hm _).bind fun _ => .refl _

theorem render_relabel {fault : Fault} {f g : NodeId → Except Fault Value}
    (h : ∀ id, g id = relabel fault (f id)) (shape : Shape) :
    shape.render settings s g = relabel fault (shape.render settings s f) := by
  have value : s.renderValue g = fun v => relabel fault (s.renderValue f v) := by
    funext v
    cases v with
    | node id => exact h id
    | null | bool _ | int _ _ | real _ _ | text _ _ | list _ => rfl
  have text : s.renderText g = fun v => relabel fault (s.renderText f v) := by
    funext v
    simp [Store.renderText, value, relabel_operand]
  have display : s.display g = fun v => relabel fault (s.display f v) := by
    funext v
    cases v with
    | node id => simp [Store.display, h, relabel_operand]
    | null | bool _ | int _ _ | real _ _ | text _ _ | list _ => rfl
  have inner : renderInner settings s g = fun v => relabel fault (renderInner settings s f v) := by
    funext v
    simp [renderInner, value]
  have body : renderBody settings s g = fun v => relabel fault (renderBody settings s f v) := by
    funext v
    unfold renderBody
    split <;> simp [inner, relabel_operand]
  cases shape with
  | bare | empty | boolean _ => rfl
  | program strict elements =>
      have opening :
          relabel fault (renderOpening settings s strict) = renderOpening settings s strict := by
        unfold renderOpening
        split <;> simp [Settings.opening, relabel_operand]
      simp [render, opening, text, relabel_operand]
  | block statements => simp [render, body]
  | conditional condition consequent alternative =>
      simp only [render, text, relabel_bind]
      split <;> simp
  | caseGroup labels statements =>
      have heads : renderHeads s g labels = relabel fault (renderHeads s f labels) := by
        have head : renderHead s g = fun v => relabel fault (renderHead s f v) := by
          funext v
          simp [renderHead, display]
        unfold renderHeads
        split <;> simp [head, relabel_operand]
      simp [render, heads, inner, relabel_operand]
  | switch discriminant groups => simp [render, text, body]
  | declarator name initial =>
      simp only [render]
      split <;> simp [text, relabel_operand]
  | declaration declarators => simp [render, value, Settings.separator, relabel_operand]
  | function name params body => simp [render, text, relabel_operand]

end Shape

namespace Store
variable {settings : Settings} {s : Store}

/-- The number of nodes of the store that are not among the given ones. -/
def countOutside (s : Store) (active : List NodeId) : Nat :=
  ((List.range s.nodes.size).filter fun i => NodeId.mk i ∉ active).length

theorem countOutside_nil : s.countOutside [] = s.nodes.size := by
  rw [countOutside, List.filter_eq_self.mpr (by simp), List.length_range]

theorem countOutside_cons_lt {id : NodeId} {active : List NodeId}
    (hin : id.index < s.nodes.size) (h : id ∉ active) :
    s.countOutside (id :: active) < s.countOutside active := by
  have split : ((List.range s.nodes.size).filter fun i => NodeId.mk i ∉ id :: active) =
      ((List.range s.nodes.size).filter fun i => NodeId.mk i ∉ active).filter
        fun i => NodeId.mk i ≠ id := by
    rw [List.filter_filter]
    congr 1
    funext i
    simp
  rw [countOutside, countOutside, split, List.length_filter_lt_length_iff_exists]
  exact ⟨id.index, by simp [hin, h], by simp⟩

/-- Rendering without a bound. `active` are the nodes whose rendering has begun and not ended;
a call on one of them ends the evaluation, with the given fault. -/
def renderGuarded (fault : Fault) (settings : Settings) (s : Store) (active : List NodeId)
    (id : NodeId) : Except Fault Value :=
  if id ∈ active then .error fault
  else if ((s.node id).override? "serialize").isSome then .error (s.refusal (.node id) "serialize")
  else if id.index < s.nodes.size then
    (s.shape id).render settings s (renderGuarded fault settings s (id :: active))
  else .ok (.text "")
termination_by s.countOutside active
decreasing_by exact countOutside_cons_lt (by assumption) (by assumption)

/-- No other fault is mistaken for that of a call on a node in progress. -/
theorem renderGuarded_eq_relabel (fault : Fault) (active : List NodeId) (id : NodeId) :
    s.renderGuarded fault settings active id =
      relabel fault (s.renderGuarded .endless settings active id) := by
  fun_induction renderGuarded fault settings s active id with
  | case1 active id hid =>
      unfold renderGuarded
      simp [hid, relabel]
  | case2 active id hid taken =>
      unfold renderGuarded
      rw [if_neg hid, if_pos taken, relabel_refusal]
  | case3 active id hid free hin ih =>
      rw [renderGuarded, if_neg hid, if_neg free, if_pos hin]
      exact Shape.render_relabel ih _
  | case4 active id hid free hout =>
      rw [renderGuarded, if_neg hid, if_neg free, if_neg hout]
      rfl

theorem renderWithin_succ (n : Nat) (id : NodeId) :
    AgreesUpTo .endless (s.renderWithin settings n id) (s.renderWithin settings (n + 1) id) := by
  induction n generalizing id with
  | zero => exact .inl rfl
  | succ n ih =>
      unfold renderWithin
      split
      · exact .refl _
      · exact Shape.render_agreesUpTo rfl rfl (fun _ => .refl _) ih _

theorem renderWithin_mono {n m : Nat} (h : n ≤ m) (id : NodeId) :
    AgreesUpTo .endless (s.renderWithin settings n id) (s.renderWithin settings m id) := by
  induction h with
  | refl => exact .refl _
  | step _ ih => exact ih.trans (renderWithin_succ _ id)

/-- The nodes in progress are distinct, so as many levels as there are other nodes suffice. -/
theorem renderGuarded_agreesUpTo_renderWithin {n : Nat} {active : List NodeId}
    (h : s.countOutside active < n) (id : NodeId) :
    AgreesUpTo .endless (s.renderGuarded .endless settings active id)
      (s.renderWithin settings n id) := by
  induction n generalizing active id with
  | zero => exact absurd h (Nat.not_lt_zero _)
  | succ n ih =>
      unfold renderGuarded renderWithin
      split
      case isTrue => exact .inl rfl
      case isFalse hid =>
        split
        case isTrue => exact .refl _
        case isFalse =>
          split
          case isTrue hin =>
            have less := countOutside_cons_lt hin hid
            exact Shape.render_agreesUpTo rfl rfl (fun _ => .refl _) (ih (by omega)) _
          case isFalse hout =>
            rw [shape, node_of_size_le (Nat.le_of_not_lt hout)]
            exact .refl _

/-- At the least bound that a node ends within, it does not end within the bound of its
children. So none of the calls below it comes back to it. -/
theorem renderWithin_agreesUpTo_renderGuarded {n : Nat} {active : List NodeId}
    (h : ∀ a ∈ active, s.renderWithin settings n a = .error .endless) (id : NodeId) :
    AgreesUpTo .endless (s.renderWithin settings n id)
      (s.renderGuarded .endless settings active id) := by
  induction n generalizing active id with
  | zero => exact .inl rfl
  | succ n ih =>
      have earlier (a : NodeId) (ha : s.renderWithin settings (n + 1) a = .error .endless) :
          s.renderWithin settings n a = .error .endless := by
        rcases renderWithin_succ n a with h | h
        · exact h
        · rw [h, ha]
      by_cases hid : s.renderWithin settings n id = .error .endless
      · by_cases hmem : id ∈ active
        · exact .inl (h id hmem)
        · have below (c : NodeId) : AgreesUpTo .endless (s.renderWithin settings n c)
              (s.renderGuarded .endless settings (id :: active) c) := by
            apply ih
            intro a ha
            rcases List.mem_cons.mp ha with rfl | ha
            · exact hid
            · exact earlier a (h a ha)
          unfold renderGuarded renderWithin
          rw [if_neg hmem]
          split
          case isTrue => exact .refl _
          case isFalse =>
            split
            case isTrue => exact Shape.render_agreesUpTo rfl rfl (fun _ => .refl _) below _
            case isFalse hout =>
              rw [shape, node_of_size_le (Nat.le_of_not_lt hout)]
              exact .refl _
      · have same : s.renderWithin settings (n + 1) id = s.renderWithin settings n id :=
          ((renderWithin_succ n id).resolve_left hid).symm
        rw [same]
        exact ih (fun a ha => earlier a (h a ha)) id

theorem render_eq_renderGuarded (id : NodeId) :
    s.render settings id = s.renderGuarded .endless settings [] id := by
  apply AgreesUpTo.antisymm
  · exact renderWithin_agreesUpTo_renderGuarded (by simp) id
  · exact renderGuarded_agreesUpTo_renderWithin (by simp [countOutside_nil]) id

/-- Beyond the bound that the store sets nothing changes. -/
theorem renderWithin_of_size_lt {n : Nat} (h : s.nodes.size < n) (id : NodeId) :
    s.renderWithin settings n id = s.render settings id := by
  apply AgreesUpTo.antisymm
  · rw [render_eq_renderGuarded]
    exact renderWithin_agreesUpTo_renderGuarded (by simp) id
  · exact renderWithin_mono h id

/-- Rendering as a recursion without a bound. -/
theorem render_eq (id : NodeId) :
    s.render settings id =
      if ((s.node id).override? "serialize").isSome then
        .error (s.refusal (.node id) "serialize")
      else (s.shape id).render settings s (s.render settings) := by
  rw [← renderWithin_of_size_lt (show s.nodes.size < s.nodes.size + 2 by omega)]
  rfl

/-- A rendering is endless when every bound is too low for it. -/
theorem render_eq_endless_iff (id : NodeId) :
    s.render settings id = .error .endless ↔
      ∀ n, s.renderWithin settings n id = .error .endless := by
  constructor
  · intro h n
    rcases renderWithin_mono (Nat.le_max_left n (s.nodes.size + 1)) id with hn | hn
    · exact hn
    · rw [hn, renderWithin_of_size_lt (by omega), h]
  · intro h
    exact h _

/-- A rendering is endless exactly when it comes to a call on a node in progress. -/
theorem endless_iff_renderGuarded (id : NodeId) :
    (∀ n, s.renderWithin settings n id = .error .endless) ↔
      ∀ fault, s.renderGuarded fault settings [] id = .error fault := by
  rw [← render_eq_endless_iff, render_eq_renderGuarded]
  constructor
  · intro h fault
    rw [renderGuarded_eq_relabel, h]
    rfl
  · intro h
    exact h .endless

/-- Either some bound suffices, and every larger one gives the same, or none does. -/
theorem renderWithin_stable_or_endless (id : NodeId) :
    (∃ outcome, outcome ≠ .error .endless ∧
      ∃ n, ∀ m, n ≤ m → s.renderWithin settings m id = outcome) ∨
    ∀ n, s.renderWithin settings n id = .error .endless := by
  by_cases h : s.render settings id = .error .endless
  · exact .inr ((render_eq_endless_iff id).mp h)
  · refine .inl ⟨_, h, s.nodes.size + 1, fun m hm => ?_⟩
    exact renderWithin_of_size_lt hm id

end Store
end ScriptGraph
