import Mathlib.Data.List.Forall2
import ScriptGraph.Proofs.Layout
import ScriptGraph.Store

/-!
What a node unfolds to when nothing below it comes back: a tree without handles.
The layout of a tree is defined by recursion on the tree and does not know the width
of a level.
-/

namespace ScriptGraph

/-- A node with everything below it, all of it of the right type. Any node may stand where a
node is needed. -/
inductive Tree
  | bare
  | program (strict : Bool) (elements : List Tree)
  | empty
  | boolean (value : Bool)
  | block (statements : Option (List Tree))
  | conditional (condition consequent : Tree) (alternative : Option Tree)
  | caseGroup (labels : List (String ⊕ Tree)) (statements : List Tree)
  | switch (discriminant : Tree) (groups : Option (List Tree))
  | declarator (name : String) (initial : Option Tree)
  | declaration (declarators : List Tree)
  | function (name : String) (params : List String) (body : Tree)

namespace Tree

@[elab_as_elim]
theorem induct {motive : Tree → Prop} (bare : motive bare)
    (program : ∀ strict elements, (∀ t ∈ elements, motive t) → motive (program strict elements))
    (empty : motive empty) (boolean : ∀ value, motive (boolean value))
    (block : ∀ statements, (∀ ts ∈ statements, ∀ t ∈ ts, motive t) → motive (block statements))
    (conditional : ∀ condition consequent alternative, motive condition → motive consequent →
      (∀ t ∈ alternative, motive t) → motive (conditional condition consequent alternative))
    (caseGroup : ∀ labels statements, (∀ t, .inr t ∈ labels → motive t) →
      (∀ t ∈ statements, motive t) → motive (caseGroup labels statements))
    (switch : ∀ discriminant groups, motive discriminant →
      (∀ ts ∈ groups, ∀ t ∈ ts, motive t) → motive (switch discriminant groups))
    (declarator : ∀ name initial, (∀ t ∈ initial, motive t) → motive (declarator name initial))
    (declaration : ∀ declarators, (∀ t ∈ declarators, motive t) →
      motive (declaration declarators))
    (function : ∀ name params body, motive body → motive (function name params body))
    (t : Tree) : motive t := by
  refine @Tree.rec motive (fun ts => ∀ t ∈ ts, motive t) (fun o => ∀ ts ∈ o, ∀ t ∈ ts, motive t)
    (fun o => ∀ t ∈ o, motive t) (fun labels => ∀ t, .inr t ∈ labels → motive t)
    (fun label => ∀ t, label = .inr t → motive t) bare program empty boolean block conditional
    caseGroup switch declarator declaration function ?_ ?_ ?_ ?_ ?_ ?_ ?_ ?_ ?_ ?_ t
  · simp
  · intro t ts ht hts u hu
    rcases List.mem_cons.mp hu with rfl | hu
    · exact ht
    · exact hts u hu
  · simp
  · intro ts hts us hus
    cases hus
    exact hts
  · simp
  · intro t ht u hu
    cases hu
    exact ht
  · simp
  · intro label labels hlabel hlabels t ht
    rcases List.mem_cons.mp ht with h | h
    · exact hlabel t h.symm
    · exact hlabels t h
  · intro name t h
    cases h
  · intro t ht u h
    cases h
    exact ht

mutual

def layout (directive : String) : Tree → Layout
  | bare => .empty
  | program strict elements =>
    (if strict then .ofText (directive ++ "\n\n") else .empty) ++
      .concat (layoutAll directive elements)
  | empty => .ofText ";"
  | boolean value => .ofText (if value then "true" else "false")
  | block none => .braced none
  | block (some statements) => .braced (layoutAll directive statements)
  | conditional condition consequent none =>
    .ofText "if (" ++ condition.layout directive ++ .ofText ") " ++ consequent.layout directive
  | conditional condition consequent (some alternative) =>
    .ofText "if (" ++ condition.layout directive ++ .ofText ") " ++ consequent.layout directive ++
      .ofText "else " ++ alternative.layout directive
  | caseGroup labels statements =>
    (Layout.column
        (if labels = [] then [.ofText "default:"] else layoutHeads directive labels)).below
      (if statements = [] then Layout.empty.lines
        else (layoutAll directive statements).flatMap Layout.deeper)
  | switch discriminant none =>
    .ofText "switch (" ++ discriminant.layout directive ++ .ofText ") " ++ .braced none
  | switch discriminant (some groups) =>
    .ofText "switch (" ++ discriminant.layout directive ++ .ofText ") " ++
      .braced (layoutAll directive groups)
  | declarator name none => .ofText name
  | declarator name (some initial) => .ofText name ++ .ofText " = " ++ initial.layout directive
  | declaration declarators =>
    .ofText "var " ++ .series (layoutAll directive declarators) ++ .ofText ";"
  | function name params body =>
    .ofText ("function " ++ name ++ "(" ++ ", ".intercalate params ++ ") ") ++
      body.layout directive

def layoutAll (directive : String) : List Tree → List Layout
  | [] => []
  | t :: ts => t.layout directive :: layoutAll directive ts

def layoutHeads (directive : String) : List (String ⊕ Tree) → List Layout
  | [] => []
  | .inl name :: labels =>
    (.ofText "case " ++ .ofText name ++ .ofText ":") :: layoutHeads directive labels
  | .inr t :: labels =>
    (.ofText "case " ++ t.layout directive ++ .ofText ":") :: layoutHeads directive labels

end

theorem layoutAll_eq (directive : String) (ts : List Tree) :
    layoutAll directive ts = ts.map (layout directive) := by
  induction ts with
  | nil => rfl
  | cons t ts ih => rw [layoutAll, ih, List.map_cons]

def depths (directive : String) (t : Tree) : List Nat :=
  (t.layout directive).depths

def labelDepths (directive : String) : String ⊕ Tree → List Nat
  | .inl name => (Layout.ofText name).depths
  | .inr t => t.depths directive

/-- How deep the lines of a tree stand, in terms of those of its parts. Where a part starts in
the middle of a line, its first line is a line already, and the others keep their depth. -/
structure DepthLaws (directive : String) : Prop where
  first (t : Tree) : (t.depths directive).head? = some 0
  text (text : String) : ∀ depth ∈ (Layout.ofText text).depths, depth = 0
  block (ts : List Tree) : (block (some ts)).depths directive =
    0 :: (ts.flatMap fun t => (t.depths directive).map (· + 1)) ++ [0]
  switch (t : Tree) (ts : List Tree) : (switch t (some ts)).depths directive =
    t.depths directive ++ (ts.flatMap fun t => (t.depths directive).map (· + 1)) ++ [0]
  caseGroup (labels : List (String ⊕ Tree)) (t : Tree) (ts : List Tree) :
    (caseGroup labels (t :: ts)).depths directive =
      (if labels = [] then [0] else labels.flatMap (labelDepths directive)) ++
        (t :: ts).flatMap fun t => (t.depths directive).map (· + 1)
  labels (labels : List (String ⊕ Tree)) : (Tree.caseGroup labels []).depths directive =
    (if labels = [] then [0] else labels.flatMap (labelDepths directive)) ++ [0]
  declaration (t : Tree) (ts : List Tree) : (declaration (t :: ts)).depths directive =
    t.depths directive ++ ts.flatMap fun t => 1 :: (t.depths directive).tail
  program (ts : List Tree) : (program false ts).depths directive =
    0 :: ts.flatMap fun t => (t.depths directive).tail
  strict (ts : List Tree) : (Tree.program true ts).depths directive =
    (Layout.ofText (directive ++ "\n\n")).depths ++
      ts.flatMap fun t => (t.depths directive).tail
  conditional (t u : Tree) : (conditional t u none).depths directive =
    t.depths directive ++ (u.depths directive).tail
  alternative (t u x : Tree) : (Tree.conditional t u (some x)).depths directive =
    t.depths directive ++ (u.depths directive).tail ++ (x.depths directive).tail
  absent (t : Tree) : (Tree.switch t none).depths directive = t.depths directive
  initial (name : String) (t : Tree) : (declarator name (some t)).depths directive =
    (Layout.ofText name).depths ++ (t.depths directive).tail
  function (name : String) (params : List String) (t : Tree) :
    (function name params t).depths directive =
      (Layout.ofText ("function " ++ name ++ "(" ++ ", ".intercalate params ++ ") ")).depths ++
        (t.depths directive).tail

theorem depths_heads (directive : String) (labels : List (String ⊕ Tree)) :
    (Layout.column
      (if labels = [] then [.ofText "default:"] else layoutHeads directive labels)).depths =
      if labels = [] then [0] else labels.flatMap (labelDepths directive) := by
  have lines : (layoutHeads directive labels).flatMap Layout.depths =
      labels.flatMap (labelDepths directive) := by
    induction labels with
    | nil => rfl
    | cons label labels ih =>
        cases label with
        | inl name =>
            simp [layoutHeads, ih, labelDepths]
        | inr t => simp [layoutHeads, ih, labelDepths, depths]
  cases labels with
  | nil => rfl
  | cons label labels =>
      rw [if_neg (List.cons_ne_nil _ _), if_neg (List.cons_ne_nil _ _), ← lines]
      cases label <;> exact Layout.depths_column _ _

theorem depthLaws (directive : String) : DepthLaws directive where
  first t := by simp [depths, Layout.depths_eq]
  text text := Layout.eq_zero_of_mem_depths_ofText text
  block ts := by
    simp [depths, layout, layoutAll_eq, List.flatMap_map]
  switch t ts := by
    simp [depths, layout, layoutAll_eq, List.flatMap_map]
  caseGroup labels t ts := by
    simp only [depths, layout, Layout.depths_below, depths_heads, layoutAll_eq]
    simp [List.map_flatMap, List.flatMap_map]
  labels labels := by
    simp only [depths, layout, Layout.depths_below, depths_heads]
    rfl
  declaration t ts := by
    simp [depths, layout, layoutAll_eq, Layout.depths_series, List.flatMap_map]
  program ts := by
    have opening : Layout.empty.depths = [0] := rfl
    simp [depths, layout, layoutAll_eq, Layout.depths_concat, List.flatMap_map, opening]
  strict ts := by
    simp [depths, layout, layoutAll_eq, Layout.depths_concat, List.flatMap_map]
  conditional t u := by
    simp [depths, layout]
  alternative t u x := by
    simp [depths, layout]
  absent t := by
    have braces : (Layout.braced none).depths = [0] := rfl
    simp [depths, layout, braces]
  initial name t := by
    simp [depths, layout]
  function name params t := by simp [depths, layout]

end Tree

/-- A node of the given shape that nothing keeps from being rendered. -/
def Store.Holds (s : Store) (id : NodeId) (shape : Shape) : Prop :=
  s.shape id = shape ∧ (s.node id).override? "serialize" = none

/-- Labels that correspond where nodes do. -/
inductive LabelUnfolds (unfolds : Value → Tree → Prop) : Value → String ⊕ Tree → Prop
  | name (text : String) (origin : Origin) : LabelUnfolds unfolds (.text text origin) (.inl text)
  | node {v : Value} {t : Tree} (h : unfolds v t) : LabelUnfolds unfolds v (.inr t)

inductive Store.Unfolds (s : Store) : Value → Tree → Prop
  | bare {id : NodeId} (h : s.Holds id .bare) : Unfolds s (.node id) .bare
  | program {id : NodeId} {strict : Bool} {l : ListId} {ts : List Tree}
      (h : s.Holds id (.program (.bool strict) (.list l)))
      (elements : List.Forall₂ (Unfolds s) (s.items l) ts) :
      Unfolds s (.node id) (.program strict ts)
  | empty {id : NodeId} (h : s.Holds id .empty) : Unfolds s (.node id) .empty
  | boolean {id : NodeId} {value : Bool} (h : s.Holds id (.boolean (.bool value))) :
      Unfolds s (.node id) (.boolean value)
  | absentBlock {id : NodeId} (h : s.Holds id (.block .null)) : Unfolds s (.node id) (.block none)
  | block {id : NodeId} {l : ListId} {ts : List Tree} (h : s.Holds id (.block (.list l)))
      (statements : List.Forall₂ (Unfolds s) (s.items l) ts) :
      Unfolds s (.node id) (.block (some ts))
  | conditional {id : NodeId} {v w : Value} {t u : Tree}
      (h : s.Holds id (.conditional v w .null)) (condition : Unfolds s v t)
      (consequent : Unfolds s w u) : Unfolds s (.node id) (.conditional t u none)
  | alternative {id other : NodeId} {v w : Value} {t u x : Tree}
      (h : s.Holds id (.conditional v w (.node other))) (condition : Unfolds s v t)
      (consequent : Unfolds s w u) (alternative : Unfolds s (.node other) x) :
      Unfolds s (.node id) (.conditional t u (some x))
  | caseGroup {id : NodeId} {l m : ListId} {labels : List (String ⊕ Tree)} {ts : List Tree}
      (h : s.Holds id (.caseGroup (.list l) (.list m)))
      (heads : List.Forall₂ (LabelUnfolds (Unfolds s)) (s.items l) labels)
      (statements : List.Forall₂ (Unfolds s) (s.items m) ts) :
      Unfolds s (.node id) (.caseGroup labels ts)
  | absentSwitch {id : NodeId} {v : Value} {t : Tree} (h : s.Holds id (.switch v .null))
      (discriminant : Unfolds s v t) : Unfolds s (.node id) (.switch t none)
  | switch {id : NodeId} {v : Value} {l : ListId} {t : Tree} {ts : List Tree}
      (h : s.Holds id (.switch v (.list l))) (discriminant : Unfolds s v t)
      (groups : List.Forall₂ (Unfolds s) (s.items l) ts) :
      Unfolds s (.node id) (.switch t (some ts))
  | declarator {id : NodeId} {name : String} {origin : Origin}
      (h : s.Holds id (.declarator (.text name origin) .null)) :
      Unfolds s (.node id) (.declarator name none)
  | initial {id other : NodeId} {name : String} {origin : Origin} {t : Tree}
      (h : s.Holds id (.declarator (.text name origin) (.node other)))
      (initial : Unfolds s (.node other) t) : Unfolds s (.node id) (.declarator name (some t))
  | declaration {id : NodeId} {l : ListId} {ts : List Tree}
      (h : s.Holds id (.declaration (.list l)))
      (declarators : List.Forall₂ (Unfolds s) (s.items l) ts) :
      Unfolds s (.node id) (.declaration ts)
  | function {id : NodeId} {name : String} {origin : Origin} {l : ListId} {names : List String}
      {v : Value} {t : Tree} (h : s.Holds id (.function (.text name origin) (.list l) v))
      (params : List.Forall₂ (fun v name => v.isText name) (s.items l) names)
      (body : Unfolds s v t) : Unfolds s (.node id) (.function name names t)

end ScriptGraph
