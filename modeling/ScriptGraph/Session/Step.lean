import ScriptGraph.Session.Configuration

/-!
Scripts: steps over named values, each with an answer and the journal of what it
did. A step that fails changes nothing more and the script goes on. At the end of
every step parents are forgotten that no name leads to any longer.
-/

namespace ScriptGraph

inductive Step
  | bind (name : String) (value : Term)
  | unbind (name : String)
  | configure (field : String) (value : Term)
  | render (target : Term)
  | display (target : Term)
  | describe (target : Term)
  | look (target : Term)
  | parent (target : Term)
  | adopt (target child : Term)
  | setParent (target parent : Term)
  | push (target : Term) (nodes : List Term)
  /-- Remove the last element, and bind it if a name is given. -/
  | pop (target : Term) (name : Option String)
  | setField (target : Term) (field : String) (value : Term)
  | same (target other : Term)
  | alike (target other : Term)
  | append (target value : Term)
  | insert (target index value : Term)
  | delete (target index : Term)
  | clear (target : Term)

inductive Reply
  | value (shown : Snapshot)
  | settings (report : SettingsReport)

structure Session where
  world : World
  settings : Settings
  names : Bindings
  deriving DecidableEq

namespace Session

def start : Session :=
  ⟨.empty, .default, .empty⟩

/-- What keeps nodes alive between steps. -/
def roots (σ : Session) : List Value :=
  σ.settings.values ++ σ.names.values

/-- Forget the parents that are lost. -/
def collect (σ : Session) : Session :=
  { σ with world := { σ.world with store := σ.world.store.sweep σ.roots } }

end Session

abbrev Scripted := EStateM Fault Session

namespace Scripted

def lift {α : Type} (act : Action α) : Scripted α := fun σ =>
  match act σ.world with
  | .ok a w => .ok a { σ with world := w }
  | .error fault w => .error fault { σ with world := w }

def eval (t : Term) (held : List Value) : Scripted Value := do
  let σ ← get
  lift (t.eval σ.names (held ++ σ.settings.values))

def evalAll (ts : List Term) (held : List Value) : Scripted (List Value) := do
  let σ ← get
  lift (Term.evalAll σ.names (held ++ σ.settings.values) ts)

def bind (name : String) (v : Value) : Scripted Unit :=
  modify fun σ => { σ with names := σ.names.bind name v }

def query {α : Type} (f : Settings → Store → Except Fault α) : Scripted α := do
  let σ ← get
  lift (Action.ofExcept (f σ.settings σ.world.store))

def shown (v : Value) : Scripted Reply := do
  let σ ← get
  return .value (← query fun _ s => s.snapshot σ.names v)

/-- Replace the items of a list; the answer is their number. -/
def update (id : ListId) (f : Store → List Value → Except Fault (List Value)) :
    Action Reply := do
  let items ← Action.query fun s => f s (s.items id)
  Action.modifyStore (·.setItems id items)
  return .value (.int items.length)

def perform : Step → Scripted Reply
  | .bind name value => do
    let v ← eval value []
    bind name v
    shown v
  | .unbind name => do
    modify fun σ => { σ with names := σ.names.unbind name }
    return .value .null
  | .configure field value => do
    let v ← eval value []
    let settings ← query fun settings _ => settings.set field v
    modify fun σ => { σ with settings }
    let σ ← get
    return .settings (← query fun settings s => settings.report s σ.names)
  | .render target => do
    let v ← eval target []
    shown (← query fun settings s => s.renderValue (s.render settings) v)
  | .display target => do
    let v ← eval target []
    return .value (.text (← query fun settings s => s.textOf settings v))
  | .describe target => do
    let v ← eval target []
    return .value (.text (← query fun _ s => .ok (s.describe v)))
  | .look target => do
    shown (← eval target [])
  | .parent target => do
    let v ← eval target []
    let σ ← get
    shown (← lift (Action.readField (v :: σ.roots) v "parent"))
  | .adopt target child => do
    let v ← eval target []
    lift (Action.seek v "become_parent_of")
    let c ← eval child [v]
    match v with
    | .node id => lift (Action.adopt id c)
    | _ => lift (Action.refuse v "become_parent_of")
    return .value .null
  | .setParent target parent => do
    let v ← eval target []
    lift (Action.seek v "set_parent")
    let p ← eval parent [v]
    lift (Action.assignParent v p)
    return .value .null
  | .push target nodes => do
    let v ← eval target []
    let vs ← evalAll nodes [v]
    return .value (.int (← lift (Action.push v vs)))
  | .pop target name => do
    let v ← eval target []
    let last ← lift (Action.popAny v)
    if let some name := name then bind name last
    shown last
  | .setField target field value => do
    let v ← eval target []
    let w ← eval value [v]
    lift (Action.assign v field w)
    return .value .null
  | .same target other => do
    let u ← eval target []
    let v ← eval other [u]
    return .value (.bool (u = v))
  | .alike target other => do
    let u ← eval target []
    let v ← eval other [u]
    return .value (.bool (← query fun _ s => s.alike u v))
  | .append target value => do
    let u ← eval target []
    lift (Action.seek u "append")
    let v ← eval value [u]
    lift do update (← Action.listFor "append" u) fun _ items => .ok (items ++ [v])
  | .insert target index value => do
    let u ← eval target []
    lift (Action.seek u "insert")
    let i ← eval index [u]
    let v ← eval value [u, i]
    lift do update (← Action.listFor "insert" u) fun s => Sequence.insert s i v
  | .delete target index => do
    let u ← eval target []
    let i ← eval index [u]
    match u with
    | .list id => lift (update id fun s => Sequence.delete s i)
    | _ => throw (.notIndexed ((← get).world.store.typeName u))
  | .clear target => do
    let u ← eval target []
    lift do update (← Action.listFor "clear" u) fun _ _ => .ok []

end Scripted

/-- The answer to a step and the lines it added to the journal. -/
structure StepReport where
  reply : Except Fault Reply
  log : List String

namespace Session

/-- Carry out a step. The journal and the links are those of the step alone. -/
def step (σ : Session) (s : Step) : Session × StepReport :=
  match Scripted.perform s { σ with world := { σ.world with journal := [], links := [] } } with
  | .ok reply σ' => (σ'.collect, ⟨.ok reply, σ'.world.journal.map Entry.line⟩)
  | .error fault σ' => (σ'.collect, ⟨.error fault, σ'.world.journal.map Entry.line⟩)

def run (σ : Session) : List Step → List StepReport
  | [] => []
  | s :: steps =>
    match σ.step s with
    | (σ', report) => report :: σ'.run steps

end Session
end ScriptGraph
