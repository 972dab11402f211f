import ScriptGraph.Proofs.Sound

/-!
Cycles and rendering. A rendering that succeeds has gone through every part, so
below it there is no cycle; for a sound node that is all it takes to succeed.
-/

namespace ScriptGraph

theorem bind_eq_ok {α β : Type} {x : Except Fault α} {f : α → Except Fault β} {b : β} :
    (x >>= f) = .ok b ↔ ∃ a, x = .ok a ∧ f a = .ok b := by
  cases x with
  | error e => simp [bind, Except.bind]
  | ok a => simp

theorem ok_of_mapM {α β : Type} {f : α → Except Fault β} {as : List α} {bs : List β}
    (h : as.mapM f = .ok bs) : ∀ a ∈ as, ∃ b, f a = .ok b := by
  induction as generalizing bs with
  | nil => simp
  | cons a as ih =>
      rw [List.mapM_cons, bind_eq_ok] at h
      obtain ⟨b, hb, h⟩ := h
      obtain ⟨cs, hcs, -⟩ := bind_eq_ok.mp h
      intro c hc
      rcases List.mem_cons.mp hc with rfl | hc
      · exact ⟨b, hb⟩
      · exact ih hcs c hc

theorem Store.iterate_of_mem {s : Store} {u v : Value} (h : u ∈ s.contents v) :
    s.iterate v = .ok (s.contents v) := by
  cases v with
  | list l => rfl
  | null | bool _ | int _ _ | real _ _ | text _ _ | node _ => simp [contents] at h

namespace Shape
variable {settings : Settings} {s : Store} {render : NodeId → Except Fault Value} {c : NodeId}

theorem ok_of_renderText {x : String} (h : s.renderText render (.node c) = .ok x) :
    ∃ u, render c = .ok u := by
  obtain ⟨u, hu, -⟩ := bind_eq_ok.mp h
  exact ⟨u, hu⟩

theorem ok_of_renderInner {x : String} (h : renderInner settings s render (.node c) = .ok x) :
    ∃ u, render c = .ok u := by
  obtain ⟨u, hu, -⟩ := bind_eq_ok.mp h
  exact ⟨u, hu⟩

theorem ok_of_renderBody {body : Value} {x : String}
    (h : renderBody settings s render body = .ok x) (hc : .node c ∈ s.contents body) :
    ∃ u, render c = .ok u := by
  have present : body ≠ .null := by
    rintro rfl
    simp [Store.contents] at hc
  rw [renderBody, if_neg present, Store.iterate_of_mem hc, ok_bind, bind_eq_ok] at h
  obtain ⟨xs, hxs, -⟩ := h
  obtain ⟨x, hx⟩ := ok_of_mapM hxs _ hc
  exact ok_of_renderInner hx

/-- A rendering that succeeds has gone through every part. -/
theorem ok_of_render {shape : Shape} {v : Value} (h : shape.render settings s render = .ok v)
    (hc : .node c ∈ shape.parts s) : ∃ u, render c = .ok u := by
  cases shape with
  | bare | empty | boolean _ => simp [parts] at hc
  | program strict elements =>
      obtain ⟨opening, -, h⟩ := bind_eq_ok.mp h
      rw [Store.iterate_of_mem hc, ok_bind, bind_eq_ok] at h
      obtain ⟨xs, hxs, -⟩ := h
      obtain ⟨x, hx⟩ := ok_of_mapM hxs _ hc
      exact ok_of_renderText hx
  | block statements =>
      obtain ⟨x, hx, -⟩ := bind_eq_ok.mp h
      exact ok_of_renderBody hx hc
  | conditional condition consequent alternative =>
      obtain ⟨x, hx, h⟩ := bind_eq_ok.mp h
      obtain ⟨y, hy, h⟩ := bind_eq_ok.mp h
      simp only [parts, List.mem_cons, List.not_mem_nil, or_false] at hc
      rcases hc with rfl | rfl | rfl
      · exact ok_of_renderText hx
      · exact ok_of_renderText hy
      · obtain ⟨z, hz, -⟩ := bind_eq_ok.mp h
        exact ok_of_renderText hz
  | caseGroup labels statements =>
      obtain ⟨xs, hxs, h⟩ := bind_eq_ok.mp h
      rcases List.mem_append.mp hc with hc | hc
      · have given : s.isTrue labels = true := by
          cases labels with
          | list l => simpa [Store.isTrue, Store.contents] using List.ne_nil_of_mem hc
          | null | bool _ | int _ _ | real _ _ | text _ _ | node _ => simp [Store.contents] at hc
        rw [renderHeads, if_pos given, Store.iterate_of_mem hc, ok_bind] at hxs
        obtain ⟨x, hx⟩ := ok_of_mapM hxs _ hc
        obtain ⟨y, hy, -⟩ := bind_eq_ok.mp hx
        obtain ⟨u, hu, -⟩ := bind_eq_ok.mp hy
        exact ⟨u, hu⟩
      · rw [Store.iterate_of_mem hc, ok_bind, bind_eq_ok] at h
        obtain ⟨ys, hys, -⟩ := h
        obtain ⟨y, hy⟩ := ok_of_mapM hys _ hc
        exact ok_of_renderInner hy
  | switch discriminant groups =>
      obtain ⟨x, hx, h⟩ := bind_eq_ok.mp h
      obtain ⟨y, hy, -⟩ := bind_eq_ok.mp h
      rcases List.mem_cons.mp hc with rfl | hc
      · exact ok_of_renderText hx
      · exact ok_of_renderBody hy hc
  | declarator name initial =>
      obtain rfl := List.mem_singleton.mp hc
      obtain ⟨x, -, h⟩ := bind_eq_ok.mp h
      obtain ⟨y, hy, -⟩ := bind_eq_ok.mp h
      exact ok_of_renderText hy
  | declaration declarators =>
      simp only [Shape.render] at h
      rw [Store.iterate_of_mem hc, ok_bind, bind_eq_ok] at h
      obtain ⟨us, hus, -⟩ := h
      exact ok_of_mapM hus _ hc
  | function name params body =>
      obtain rfl := List.mem_singleton.mp hc
      obtain ⟨x, -, h⟩ := bind_eq_ok.mp h
      obtain ⟨vs, -, h⟩ := bind_eq_ok.mp h
      obtain ⟨names, -, h⟩ := bind_eq_ok.mp h
      obtain ⟨y, hy, -⟩ := bind_eq_ok.mp h
      exact ok_of_renderText hy

end Shape

namespace Store
variable {s : Store} {settings : Settings}

theorem ok_of_edge {n : Nat} {a b : NodeId} {v : Value}
    (h : s.renderWithin settings n a = .ok v) (edge : s.Edge a b) :
    ∃ m < n, ∃ u, s.renderWithin settings m b = .ok u := by
  cases n with
  | zero => cases h
  | succ n =>
      unfold renderWithin at h
      split at h
      case isTrue => cases h
      case isFalse => exact ⟨n, Nat.lt_succ_self n, Shape.ok_of_render h edge⟩

theorem ok_of_path {n : Nat} {a b : NodeId} {v : Value}
    (h : s.renderWithin settings n a = .ok v) (path : Relation.TransGen s.Edge a b) :
    ∃ m < n, ∃ u, s.renderWithin settings m b = .ok u := by
  induction path with
  | single edge => exact ok_of_edge h edge
  | tail _ edge ih =>
      obtain ⟨m, hm, u, hu⟩ := ih
      obtain ⟨k, hk, w, hw⟩ := ok_of_edge hu edge
      exact ⟨k, Nat.lt_trans hk hm, w, hw⟩

/-- On a cycle every bound that suffices would have a smaller one that does. -/
theorem not_ok_of_cycle {a : NodeId} (cycle : Relation.TransGen s.Edge a a) (n : Nat) (v : Value) :
    s.renderWithin settings n a ≠ .ok v := by
  induction n using Nat.strongRecOn generalizing v with
  | ind n ih =>
      intro h
      obtain ⟨m, hm, u, hu⟩ := ok_of_path h cycle
      exact ih m hm u hu

theorem acyclicFrom_of_ok {id : NodeId} {v : Value} (h : s.render settings id = .ok v) :
    s.AcyclicFrom id := by
  intro x path cycle
  rcases Relation.reflTransGen_iff_eq_or_transGen.mp path with rfl | path
  · exact not_ok_of_cycle cycle _ _ h
  · obtain ⟨m, -, u, hu⟩ := ok_of_path h path
    exact not_ok_of_cycle cycle m u hu

/-- When rendering ends. A bound on the depth decides it, no bound on the depth is needed where
calls in progress are known, and for a sound node it is a matter of cycles. -/
theorem render_endless_rule (settings : Settings) (s : Store) (id : NodeId) :
    ((∃ outcome, outcome ≠ .error .endless ∧
        ∃ n, ∀ m, n ≤ m → s.renderWithin settings m id = outcome) ∨
      ∀ n, s.renderWithin settings n id = .error .endless) ∧
    ((∀ n, s.renderWithin settings n id = .error .endless) ↔
      ∀ fault, s.renderGuarded fault settings [] id = .error fault) ∧
    ∀ width directive, settings.Regular width directive → s.SoundFrom id →
      ((∃ text origin, s.render settings id = .ok (.text text origin)) → s.AcyclicFrom id) ∧
      (s.AcyclicFrom id → (∃ text origin, s.render settings id = .ok (.text text origin)) ∨
        ¬ settings.memory.holds width ∧ s.render settings id = .error .noMemory) :=
  ⟨renderWithin_stable_or_endless id, endless_iff_renderGuarded id, fun _ _ regular sound =>
    ⟨fun ⟨_, _, h⟩ => acyclicFrom_of_ok h, render_text_of_acyclicFrom regular sound⟩⟩

/-- A block that is its own only statement. -/
def loop : Store :=
  ⟨#[.ofShape (.block (.list ⟨0⟩))], #[[.node ⟨0⟩]]⟩

theorem sample_and_loop_endless_rule :
    (∃ text origin, sample.render .default ⟨4⟩ = .ok (.text text origin)) ∧
      ¬ ∃ text origin, loop.render .default ⟨0⟩ = .ok (.text text origin) := by
  constructor
  · have rule := (render_endless_rule .default sample ⟨4⟩).2.2 _ _ Settings.regular_default
    exact ((rule sample_sound).2 sample_acyclic).resolve_right fun short => short.1 (by decide)
  · have rule := (render_endless_rule .default loop ⟨0⟩).2.2 _ _ Settings.regular_default
    intro h
    have cycle : Relation.TransGen loop.Edge ⟨0⟩ ⟨0⟩ := .single (by decide)
    exact (rule (soundFrom_of_lt (by decide) _)).1 h ⟨0⟩ .refl cycle

theorem not_text_of_typed_of_acyclic :
    (∀ i < sample.nodes.size, (sample.shape ⟨i⟩).isTyped sample) ∧ sample.AcyclicFrom ⟨3⟩ ∧
      sample.render (.ofWidth 36028797018963968) ⟨3⟩ = .error .noMemory ∧
      (∀ i < hollow.nodes.size, (hollow.shape ⟨i⟩).isTyped hollow) ∧
      (∀ id, hollow.AcyclicFrom id) ∧
      ∀ id ∈ [⟨1⟩, ⟨2⟩, ⟨3⟩], ∃ fault, hollow.render .default id = .error fault := by
  refine ⟨by decide, acyclicFrom_of_lt (by decide) _, by decide, by decide,
    acyclicFrom_of_lt (by decide), ?_⟩
  intro id hid
  simp only [List.mem_cons, List.not_mem_nil, or_false] at hid
  rcases hid with rfl | rfl | rfl
  · exact ⟨_, rfl⟩
  · exact ⟨_, rfl⟩
  · exact ⟨_, rfl⟩

end Store
end ScriptGraph
