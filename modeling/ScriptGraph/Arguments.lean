import ScriptGraph.Fault
import ScriptGraph.Value

/-!
Arguments of a construction, by position and by name.
-/

namespace ScriptGraph

structure Parameter where
  name : String
  isRequired : Bool
  deriving DecidableEq

def Parameter.required (name : String) : Parameter :=
  ⟨name, true⟩

def Parameter.optional (name : String) : Parameter :=
  ⟨name, false⟩

/-- What is constructed, by the name it is reported by, and what it is constructed from. -/
structure Signature where
  owner : String
  params : List Parameter
  deriving DecidableEq

/-- The names that arguments can be given under. The thing under construction comes first
and has its argument already. -/
def Signature.names (signature : Signature) : List String :=
  "self" :: signature.params.map (·.name)

structure Arguments where
  positional : List Value
  named : List (String × Value)
  deriving DecidableEq

namespace Arguments

/-- What is wrong with an argument given by name. -/
def nameFault? (args : Arguments) (signature : Signature) (name : String) : Option Fault :=
  match signature.names.idxOf? name with
  | none => some (.unknownArgument signature.owner name)
  | some i =>
    if i ≤ args.positional.length then some (.repeatedArgument signature.owner name) else none

/-- The required parameters that no argument is given for. -/
def missing (args : Arguments) (signature : Signature) : List String :=
  ((signature.params.drop args.positional.length).filter fun p =>
    p.isRequired && (args.named.lookup p.name).isNone).map (·.name)

/-- What is wrong with the arguments as a whole: a name that does not fit, then too many,
then too few. -/
def fault? (args : Arguments) (signature : Signature) : Option Fault :=
  if signature.params = [] then
    if args.positional = [] ∧ args.named = [] then none
    else some (.noParameters signature.owner)
  else
    match args.named.findSome? fun arg => args.nameFault? signature arg.1 with
    | some fault => some fault
    | none =>
      if signature.params.length < args.positional.length then
        some (.surplusArguments signature.owner (signature.params.countP (·.isRequired) + 1)
          (signature.params.length + 1) (args.positional.length + 1))
      else
        match args.missing signature with
        | [] => none
        | names => some (.missingArguments signature.owner names)

/-- The arguments under the names of their parameters. Optional ones may be left out. -/
def assign (args : Arguments) (signature : Signature) :
    Except Fault (List (String × Value)) :=
  match args.fault? signature with
  | some fault => .error fault
  | none => .ok ((signature.params.map (·.name)).zip args.positional ++ args.named)

end Arguments
end ScriptGraph
