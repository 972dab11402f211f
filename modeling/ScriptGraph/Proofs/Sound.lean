import Mathlib.Logic.Relation
import ScriptGraph.Proofs.TreeText

/-!
Nodes whose fields have the right types, and the edges that rendering follows. A
sound node with no cycle below it unfolds to a tree and is rendered as the layout of
that tree, at every width.
-/

namespace ScriptGraph

namespace Value

def isNode : Value → Bool
  | node _ => true
  | null | bool _ | int .. | real .. | text .. | list _ => false

def isString : Value → Bool
  | text .. => true
  | null | bool _ | int .. | real .. | list _ | node _ => false

def isBool : Value → Bool
  | bool _ => true
  | null | int .. | real .. | text .. | list _ | node _ => false

theorem isNode_iff {v : Value} : v.isNode ↔ ∃ id, v = node id := by
  cases v <;> simp [isNode]

theorem isString_iff {v : Value} : v.isString ↔ ∃ s origin, v = text s origin := by
  cases v <;> simp [isString]

theorem isBool_iff {v : Value} : v.isBool ↔ ∃ b, v = bool b := by
  cases v <;> simp [isBool]

end Value

namespace Store

/-- Whether a value is a list of values that pass a test. -/
def isListOf (s : Store) (test : Value → Bool) : Value → Bool
  | .list l => (s.items l).all test
  | .null | .bool _ | .int .. | .real .. | .text .. | .node _ => false

theorem isListOf_iff {s : Store} {test : Value → Bool} {v : Value} :
    s.isListOf test v ↔ ∃ l, v = .list l ∧ ∀ u ∈ s.items l, test u := by
  cases v <;> simp [isListOf]

/-- The items of a list; nothing else has any. -/
def contents (s : Store) : Value → List Value
  | .list l => s.items l
  | .null | .bool _ | .int .. | .real .. | .text .. | .node _ => []

end Store

namespace Shape

/-- The fields have the types they are annotated with; any node stands for a node of any kind. -/
def isTyped (s : Store) : Shape → Bool
  | bare | empty => true
  | program strict elements => strict.isBool && s.isListOf Value.isNode elements
  | boolean value => value.isBool
  | block statements => statements = .null || s.isListOf Value.isNode statements
  | conditional condition consequent alternative =>
    condition.isNode && (consequent = .null || consequent.isNode) &&
      (alternative = .null || alternative.isNode)
  | caseGroup labels statements =>
    s.isListOf (fun v => v.isString || v.isNode) labels && s.isListOf Value.isNode statements
  | switch discriminant groups =>
    discriminant.isNode && (groups = .null || s.isListOf Value.isNode groups)
  | declarator name initial => name.isString && (initial = .null || initial.isNode)
  | declaration declarators => s.isListOf Value.isNode declarators
  | function name params body =>
    name.isString && s.isListOf Value.isString params && (body = .null || body.isNode)

/-- Nothing is missing that construction puts in where it is left out. -/
def isComplete : Shape → Bool
  | conditional _ consequent _ => consequent ≠ .null
  | function _ _ body => body ≠ .null
  | bare | program .. | empty | boolean _ | block _ | caseGroup .. | switch .. | declarator ..
  | declaration _ => true

/-- The values that a rendering goes on to. -/
def parts (s : Store) : Shape → List Value
  | bare | empty | boolean _ => []
  | program _ elements => s.contents elements
  | block statements => s.contents statements
  | conditional condition consequent alternative => [condition, consequent, alternative]
  | caseGroup labels statements => s.contents labels ++ s.contents statements
  | switch discriminant groups => discriminant :: s.contents groups
  | declarator _ initial => [initial]
  | declaration declarators => s.contents declarators
  | function _ _ body => [body]

end Shape

namespace Store

/-- A rendering of the first node asks for one of the second. -/
def Edge (s : Store) (a b : NodeId) : Prop :=
  .node b ∈ (s.shape a).parts s

instance (s : Store) (a b : NodeId) : Decidable (s.Edge a b) :=
  inferInstanceAs (Decidable (_ ∈ _))

def isSound (s : Store) (id : NodeId) : Bool :=
  (s.shape id).isTyped s && (s.shape id).isComplete &&
    ((s.node id).override? "serialize").isNone

/-- Everything that a rendering of the node comes to is sound. -/
def SoundFrom (s : Store) (id : NodeId) : Prop :=
  ∀ x, Relation.ReflTransGen s.Edge id x → s.isSound x

def AcyclicFrom (s : Store) (id : NodeId) : Prop :=
  ∀ x, Relation.ReflTransGen s.Edge id x → ¬ Relation.TransGen s.Edge x x

variable {s : Store}

theorem isTyped_of_isSound {id : NodeId} (h : s.isSound id) : (s.shape id).isTyped s := by
  simp only [isSound, Bool.and_eq_true] at h
  exact h.1.1

theorem SoundFrom.of_edge {a b : NodeId} (h : s.SoundFrom a) (edge : s.Edge a b) :
    s.SoundFrom b :=
  fun x path => h x (.head edge path)

theorem AcyclicFrom.of_edge {a b : NodeId} (h : s.AcyclicFrom a) (edge : s.Edge a b) :
    s.AcyclicFrom b :=
  fun x path => h x (.head edge path)

theorem not_edge_of_size_le {a b : NodeId} (h : s.nodes.size ≤ a.index) : ¬ s.Edge a b := by
  rw [Edge, shape, node_of_size_le h]
  exact List.not_mem_nil

/-- Where there is no cycle, a property of every node that all edges lead to is one of the node
they start at. The nodes on the way are distinct, so it ends. -/
theorem AcyclicFrom.induct {motive : NodeId → Prop}
    (step : ∀ a, (∀ b, s.Edge a b → motive b) → motive a) {id : NodeId} (h : s.AcyclicFrom id) :
    motive id := by
  suffices main : ∀ n way a, s.countOutside way < n → (∀ b ∈ way, Relation.TransGen s.Edge b a) →
      s.AcyclicFrom a → motive a from
    main _ [] id (Nat.lt_succ_self _) (by simp) h
  intro n
  induction n with
  | zero =>
      intro way a hn
      exact absurd hn (Nat.not_lt_zero _)
  | succ n ih =>
      intro way a hn hway ha
      refine step a fun b edge => ?_
      have hin : a.index < s.nodes.size :=
        Nat.lt_of_not_le fun hout => not_edge_of_size_le hout edge
      have new : a ∉ way := fun hmem => ha a .refl (hway a hmem)
      have less := countOutside_cons_lt hin new
      refine ih (a :: way) b (by omega) ?_ (ha.of_edge edge)
      intro c hc
      rcases List.mem_cons.mp hc with rfl | hc
      · exact .single edge
      · exact .tail (hway c hc) edge

theorem exists_forall₂ {α β : Type} {R : α → β → Prop} {as : List α} (h : ∀ a ∈ as, ∃ b, R a b) :
    ∃ bs, List.Forall₂ R as bs := by
  induction as with
  | nil => exact ⟨[], .nil⟩
  | cons a as ih =>
      obtain ⟨b, hb⟩ := h a (by simp)
      obtain ⟨bs, hbs⟩ := ih fun a ha => h a (by simp [ha])
      exact ⟨b :: bs, .cons hb hbs⟩

/-- All nodes that a rendering of the shape goes on to unfold. -/
def PartsUnfold (s : Store) (shape : Shape) : Prop :=
  ∀ v ∈ shape.parts s, v.isNode → ∃ t, s.Unfolds v t

theorem PartsUnfold.list {shape : Shape} (h : s.PartsUnfold shape) {v : Value}
    (typed : s.isListOf Value.isNode v) (mem : ∀ u ∈ s.contents v, u ∈ shape.parts s) :
    ∃ l ts, v = .list l ∧ List.Forall₂ s.Unfolds (s.items l) ts := by
  obtain ⟨l, rfl, hl⟩ := isListOf_iff.mp typed
  obtain ⟨ts, hts⟩ := exists_forall₂ fun u hu => h u (mem u hu) (hl u hu)
  exact ⟨l, ts, rfl, hts⟩

section
variable {id : NodeId}

theorem exists_unfolds_conditional {condition consequent alternative : Value}
    (holds : s.Holds id (.conditional condition consequent alternative))
    (typed : (Shape.conditional condition consequent alternative).isTyped s)
    (complete : (Shape.conditional condition consequent alternative).isComplete)
    (parts : s.PartsUnfold (.conditional condition consequent alternative)) :
    ∃ t, s.Unfolds (.node id) t := by
  simp only [Shape.isTyped, Bool.and_eq_true, Bool.or_eq_true, decide_eq_true_eq] at typed
  simp only [Shape.isComplete, decide_eq_true_eq] at complete
  obtain ⟨t, ht⟩ := parts condition (by simp [Shape.parts]) typed.1.1
  obtain ⟨u, hu⟩ := parts consequent (by simp [Shape.parts]) (typed.1.2.resolve_left complete)
  rcases typed.2 with rfl | other
  · exact ⟨_, .conditional holds ht hu⟩
  · obtain ⟨x, hx⟩ := parts alternative (by simp [Shape.parts]) other
    obtain ⟨other, rfl⟩ := Value.isNode_iff.mp other
    exact ⟨_, .alternative holds ht hu hx⟩

theorem exists_unfolds_caseGroup {labels statements : Value}
    (holds : s.Holds id (.caseGroup labels statements))
    (typed : (Shape.caseGroup labels statements).isTyped s)
    (parts : s.PartsUnfold (.caseGroup labels statements)) :
    ∃ t, s.Unfolds (.node id) t := by
  simp only [Shape.isTyped, Bool.and_eq_true] at typed
  obtain ⟨m, ts, rfl, hts⟩ := parts.list typed.2 fun u hu => List.mem_append_right _ hu
  obtain ⟨l, rfl, hl⟩ := isListOf_iff.mp typed.1
  have heads : ∀ v ∈ s.items l, ∃ label, LabelUnfolds s.Unfolds v label := by
    intro v hv
    rcases Bool.or_eq_true_iff.mp (hl v hv) with string | other
    · obtain ⟨name, origin, rfl⟩ := Value.isString_iff.mp string
      exact ⟨_, .name name origin⟩
    · obtain ⟨t, ht⟩ := parts v (List.mem_append_left _ hv) other
      exact ⟨_, .node ht⟩
  obtain ⟨labels, hlabels⟩ := exists_forall₂ heads
  exact ⟨_, .caseGroup holds hlabels hts⟩

theorem exists_unfolds_switch {discriminant groups : Value}
    (holds : s.Holds id (.switch discriminant groups))
    (typed : (Shape.switch discriminant groups).isTyped s)
    (parts : s.PartsUnfold (.switch discriminant groups)) :
    ∃ t, s.Unfolds (.node id) t := by
  simp only [Shape.isTyped, Bool.and_eq_true, Bool.or_eq_true, decide_eq_true_eq] at typed
  obtain ⟨t, ht⟩ := parts discriminant List.mem_cons_self typed.1
  rcases typed.2 with rfl | groups
  · exact ⟨_, .absentSwitch holds ht⟩
  · obtain ⟨l, ts, rfl, hts⟩ := parts.list groups fun u hu => List.mem_cons_of_mem _ hu
    exact ⟨_, .switch holds ht hts⟩

theorem exists_unfolds_declarator {name initial : Value}
    (holds : s.Holds id (.declarator name initial))
    (typed : (Shape.declarator name initial).isTyped s)
    (parts : s.PartsUnfold (.declarator name initial)) :
    ∃ t, s.Unfolds (.node id) t := by
  simp only [Shape.isTyped, Bool.and_eq_true, Bool.or_eq_true, decide_eq_true_eq] at typed
  obtain ⟨name, origin, rfl⟩ := Value.isString_iff.mp typed.1
  rcases typed.2 with rfl | initial
  · exact ⟨_, .declarator holds⟩
  · obtain ⟨t, ht⟩ := parts _ List.mem_cons_self initial
    obtain ⟨other, rfl⟩ := Value.isNode_iff.mp initial
    exact ⟨_, .initial holds ht⟩

theorem exists_unfolds_function {name params body : Value}
    (holds : s.Holds id (.function name params body))
    (typed : (Shape.function name params body).isTyped s)
    (complete : (Shape.function name params body).isComplete)
    (parts : s.PartsUnfold (.function name params body)) :
    ∃ t, s.Unfolds (.node id) t := by
  simp only [Shape.isTyped, Bool.and_eq_true, Bool.or_eq_true, decide_eq_true_eq] at typed
  simp only [Shape.isComplete, decide_eq_true_eq] at complete
  obtain ⟨name, origin, rfl⟩ := Value.isString_iff.mp typed.1.1
  obtain ⟨l, rfl, hl⟩ := isListOf_iff.mp typed.1.2
  obtain ⟨t, ht⟩ := parts body List.mem_cons_self (typed.2.resolve_left complete)
  have names : ∀ v ∈ s.items l, ∃ name, v.isText name := by
    intro v hv
    obtain ⟨name, origin, rfl⟩ := Value.isString_iff.mp (hl v hv)
    exact ⟨name, Value.isText_iff.mpr ⟨origin, rfl⟩⟩
  obtain ⟨names, hnames⟩ := exists_forall₂ names
  exact ⟨_, .function holds hnames ht⟩

end

theorem exists_unfolds_step {id : NodeId} (sound : s.isSound id)
    (h : ∀ x, s.Edge id x → ∃ t, s.Unfolds (.node x) t) : ∃ t, s.Unfolds (.node id) t := by
  simp only [isSound, Bool.and_eq_true, Option.isNone_iff_eq_none] at sound
  obtain ⟨⟨typed, complete⟩, plain⟩ := sound
  have parts : s.PartsUnfold (s.shape id) := by
    intro v mem isNode
    obtain ⟨x, rfl⟩ := Value.isNode_iff.mp isNode
    exact h x mem
  cases hs : s.shape id with
  | bare => exact ⟨_, .bare ⟨hs, plain⟩⟩
  | empty => exact ⟨_, .empty ⟨hs, plain⟩⟩
  | boolean value =>
      rw [hs] at typed
      obtain ⟨b, rfl⟩ := Value.isBool_iff.mp typed
      exact ⟨_, .boolean ⟨hs, plain⟩⟩
  | program strict elements =>
      rw [hs] at typed parts
      simp only [Shape.isTyped, Bool.and_eq_true] at typed
      obtain ⟨b, rfl⟩ := Value.isBool_iff.mp typed.1
      obtain ⟨l, ts, rfl, hts⟩ := parts.list typed.2 fun u hu => hu
      exact ⟨_, .program ⟨hs, plain⟩ hts⟩
  | block statements =>
      rw [hs] at typed parts
      simp only [Shape.isTyped, Bool.or_eq_true, decide_eq_true_eq] at typed
      rcases typed with rfl | typed
      · exact ⟨_, .absentBlock ⟨hs, plain⟩⟩
      · obtain ⟨l, ts, rfl, hts⟩ := parts.list typed fun u hu => hu
        exact ⟨_, .block ⟨hs, plain⟩ hts⟩
  | conditional condition consequent alternative =>
      rw [hs] at typed complete parts
      exact exists_unfolds_conditional ⟨hs, plain⟩ typed complete parts
  | caseGroup labels statements =>
      rw [hs] at typed parts
      exact exists_unfolds_caseGroup ⟨hs, plain⟩ typed parts
  | switch discriminant groups =>
      rw [hs] at typed parts
      exact exists_unfolds_switch ⟨hs, plain⟩ typed parts
  | declarator name initial =>
      rw [hs] at typed parts
      exact exists_unfolds_declarator ⟨hs, plain⟩ typed parts
  | declaration declarators =>
      rw [hs] at typed parts
      obtain ⟨l, ts, rfl, hts⟩ := parts.list typed fun u hu => hu
      exact ⟨_, .declaration ⟨hs, plain⟩ hts⟩
  | function name params body =>
      rw [hs] at typed complete parts
      exact exists_unfolds_function ⟨hs, plain⟩ typed complete parts

theorem exists_unfolds {id : NodeId} (sound : s.SoundFrom id) (acyclic : s.AcyclicFrom id) :
    ∃ t, s.Unfolds (.node id) t := by
  refine acyclic.induct (motive := fun a => s.SoundFrom a → ∃ t, s.Unfolds (.node a) t) ?_ sound
  intro a ih sound
  exact exists_unfolds_step (sound a .refl) fun b edge => ih b edge (sound.of_edge edge)

/-- Indenting again at every level is laying out once. The layout is read off the tree that the
node unfolds to, and it is the same one at every width. -/
theorem exists_layout {id : NodeId} (sound : s.SoundFrom id) (acyclic : s.AcyclicFrom id) :
    ∃ t, s.Unfolds (.node id) t ∧ (∀ directive, Tree.DepthLaws directive) ∧ s.RendersAs id t := by
  obtain ⟨t, ht⟩ := exists_unfolds sound acyclic
  exact ⟨t, ht, Tree.depthLaws, rendersAs_of_unfolds ht⟩

/-- A sound node without cycles has a text at every width that memory has room for. -/
theorem render_text_of_acyclicFrom {settings : Settings} {width : Nat} {directive : String}
    (regular : settings.Regular width directive) {id : NodeId} (sound : s.SoundFrom id)
    (acyclic : s.AcyclicFrom id) :
    (∃ text origin, s.render settings id = .ok (.text text origin)) ∨
      ¬ settings.memory.holds width ∧ s.render settings id = .error .noMemory := by
  obtain ⟨t, ht⟩ := exists_unfolds sound acyclic
  exact (rendersAs_of_unfolds ht settings width directive regular).imp_left fun h => ⟨_, h⟩

theorem soundFrom_of_lt (h : ∀ i < s.nodes.size, s.isSound ⟨i⟩) (id : NodeId) :
    s.SoundFrom id := by
  intro x _
  by_cases hin : x.index < s.nodes.size
  · exact h x.index hin
  · rw [isSound, shape, node_of_size_le (Nat.le_of_not_lt hin)]
    rfl

/-- Whether a value is not a node, or one that comes before a position. -/
def precedes (position : Nat) : Value → Bool
  | .node id => id.index < position
  | .null | .bool _ | .int .. | .real .. | .text .. | .list _ => true

/-- There is no cycle where edges lead to earlier nodes only. -/
theorem acyclicFrom_of_lt
    (h : ∀ i < s.nodes.size, ∀ v ∈ (s.shape ⟨i⟩).parts s, precedes i v) (id : NodeId) :
    s.AcyclicFrom id := by
  have step {a b : NodeId} (edge : s.Edge a b) : b.index < a.index := by
    have hin : a.index < s.nodes.size :=
      Nat.lt_of_not_le fun hout => not_edge_of_size_le hout edge
    simpa [precedes] using h a.index hin _ edge
  have less {a b : NodeId} (path : Relation.TransGen s.Edge a b) : b.index < a.index := by
    induction path with
    | single edge => exact step edge
    | tail _ edge ih => exact Nat.lt_trans (step edge) ih
  intro x _ cycle
  exact Nat.lt_irrefl _ (less cycle)

/-- A block with a declaration of two variables. -/
def sample : Store :=
  ⟨#[.ofShape (.declarator (.text "x") .null), .ofShape (.boolean (.bool true)),
      .ofShape (.declarator (.text "y") (.node ⟨1⟩)), .ofShape (.declaration (.list ⟨0⟩)),
      .ofShape (.block (.list ⟨1⟩))],
    #[[.node ⟨0⟩, .node ⟨2⟩], [.node ⟨3⟩]]⟩

theorem sample_sound : sample.SoundFrom ⟨4⟩ :=
  soundFrom_of_lt (by decide) _

theorem sample_acyclic : sample.AcyclicFrom ⟨4⟩ :=
  acyclicFrom_of_lt (by decide) _

theorem sample_layout : ∃ t, sample.Unfolds (.node ⟨4⟩) t ∧
    (∀ directive, Tree.DepthLaws directive) ∧ sample.RendersAs ⟨4⟩ t :=
  exists_layout sample_sound sample_acyclic

/-- Nodes whose fields have the types they are annotated with and that have no rendering: a
conditional and a function for want of a part, an empty statement for what was set on it. -/
def hollow : Store :=
  ⟨#[.ofShape (.boolean (.bool true)), .ofShape (.conditional (.node ⟨0⟩) .null .null),
      .ofShape (.function (.text "f") (.list ⟨0⟩) .null),
      ⟨.empty, none, [("serialize", .null)]⟩],
    #[[]]⟩

theorem not_layout_of_typed :
    (¬ ∃ a : Layout, ∀ width < Nat.pow 2 63, ∃ origin,
      sample.render (.ofWidth width) ⟨4⟩ = .ok (.text (a.text width) origin)) ∧
      (∀ i < hollow.nodes.size, (hollow.shape ⟨i⟩).isTyped hollow) ∧
      (∀ id, hollow.AcyclicFrom id) ∧
      ∀ id ∈ [⟨1⟩, ⟨2⟩, ⟨3⟩], ¬ ∃ v, hollow.render Settings.default id = .ok v := by
  refine ⟨?_, by decide, acyclicFrom_of_lt (by decide), ?_⟩
  · rintro ⟨a, h⟩
    obtain ⟨origin, h⟩ := h 36028797018963968 (by decide)
    have short : sample.render (.ofWidth 36028797018963968) ⟨4⟩ = .error .noMemory := by decide
    rw [short] at h
    cases h
  · intro id hid
    rintro ⟨v, h⟩
    simp only [List.mem_cons, List.not_mem_nil, or_false] at hid
    rcases hid with rfl | rfl | rfl <;> cases h

end Store

end ScriptGraph
