import ScriptGraph.Construct
import ScriptGraph.Reach
import ScriptGraph.Render
import ScriptGraph.Sequence
import ScriptGraph.Snapshot

/-!
Terms that scripts build values with. Evaluation goes from left to right. What has
been evaluated and not yet stored anywhere is kept alive by the term around it, so
it is passed on as held.
-/

namespace ScriptGraph

inductive Term
  | null
  | bool (b : Bool)
  | int (n : Int)
  | real (x : Binary64)
  | text (s : String)
  /-- A new list. -/
  | list (items : List Term)
  /-- A new node; the terms in `values` are its named arguments, under `names`. -/
  | construct (kind : Kind) (args : List Term) (names : List String) (values : List Term)
  | ref (name : String)
  | field (owner : Term) (name : String)
  | item (owner index : Term)
  deriving Inhabited

namespace Action

/-- An attribute of a value. The parent of a node is read among what the roots keep alive. -/
def readField (roots : List Value) (v : Value) (name : String) : Action Value := do
  match v with
  | .node id =>
    if name = "parent" then
      expectOwn id Node.linkName
      match (← store).parentAmong roots id with
      | some p => return .node p
      | none => return .null
    else
      match ((← store).node id).attribute? name with
      | some value => return value
      | none => lacks v name
  | _ => lacks v name

/-- The parent reads as what is among the roots, or null, unless something was put in the place
of the link. -/
theorem readField_parent {roots : List Value} {id : NodeId} {w : World}
    (own : (w.store.node id).override? Node.linkName = none) :
    readField roots (.node id) "parent" w =
      .ok ((w.store.parentAmong roots id).elim .null .node) w := by
  refine (bind_of_ok (expectOwn_of_none own)).trans ?_
  refine (bind_of_ok (store_eq w)).trans ?_
  cases w.store.parentAmong roots id with
  | none => rfl
  | some p => rfl

/-- The element of a list or the character of a text at an index. The character is a text
made for this. -/
def readItem (v index : Value) : Action Value := do
  match v with
  | .list id => query fun s => Sequence.pick s index (s.items id)
  | .text t _ => newText (← query fun s => Sequence.character s index t)
  | _ => throw (.notIndexed ((← store).typeName v))

end Action

namespace Term

mutual

def eval (names : Bindings) (held : List Value) : Term → Action Value
  | null => return .null
  | bool b => return .bool b
  | int n => Action.newInt n
  | real x => Action.newReal x
  | text s => Action.newText s
  | list items => do
    let vs ← evalAll names held items
    return .list (← Action.newList vs)
  | construct kind args labels values => do
    let positional ← evalAll names held args
    let named ← evalAll names (positional ++ held) values
    return .node (← Action.construct kind ⟨positional, labels.zip named⟩)
  | ref name => do
    match names.find? name with
    | some v => return v
    | none => throw (.unbound name)
  | field owner name => do
    let v ← eval names held owner
    Action.readField (v :: held ++ names.values) v name
  | item owner index => do
    let v ← eval names held owner
    let i ← eval names (v :: held) index
    Action.readItem v i

def evalAll (names : Bindings) (held : List Value) : List Term → Action (List Value)
  | [] => return []
  | t :: ts => do
    let v ← eval names held t
    let vs ← evalAll names (v :: held) ts
    return v :: vs

end

end Term

/-- The two parts of producing a text from a term. -/
inductive Stage
  | build
  | render
  deriving DecidableEq

def Stage.label : Stage → String
  | build => "build"
  | render => "serialize"

/-- Build a value in an empty world, then render it under some settings. -/
def Action.produce (settings : Settings) (build : Action Value) :
    Except (Stage × Fault) Value × World :=
  match build.run .empty with
  | .error fault w => (.error (.build, fault), w)
  | .ok v w =>
    match w.store.renderValue (w.store.render settings) v with
    | .ok rendered => (.ok rendered, w)
    | .error fault => (.error (.render, fault), w)

/-- A rendering as it is reported, with the lines of the journal. -/
structure Rendering where
  result : Except (Stage × Fault) Snapshot
  log : List String

def Term.rendering (t : Term) : Rendering :=
  match Action.produce .default (t.eval .empty []) with
  | (.error failure, w) => ⟨.error failure, w.journal.map Entry.line⟩
  | (.ok v, w) =>
    ⟨(w.store.snapshot .empty v).mapError (Stage.render, ·), w.journal.map Entry.line⟩

end ScriptGraph
