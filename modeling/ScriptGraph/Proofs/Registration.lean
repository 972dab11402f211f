import ScriptGraph.Proofs.Success

/-!
Registration of a new node. A construction that is given a program comes to the same as the
construction without it and a push of the new node after it, whatever the program and the other
arguments are, and also where one of the two fails.
-/

namespace ScriptGraph

/-- The program is the last parameter and may be left out. -/
theorem Kind.parameters_of_isRegistrable {kind : Kind} (h : kind.isRegistrable) :
    ∃ others, kind.parameters = others ++ [.optional "module"] ∧
      ∀ p ∈ others, p.name ≠ "module" := by
  cases kind with
  | bare | program | caseGroup | declarator => cases h
  | empty => exact ⟨[], rfl, by decide⟩
  | boolean => exact ⟨[.required "value"], rfl, by decide⟩
  | block => exact ⟨[.optional "statements"], rfl, by decide⟩
  | conditional =>
      exact ⟨[.required "condition", .optional "then_statement", .optional "else_statement"], rfl,
        by decide⟩
  | switch => exact ⟨[.required "discriminant", .optional "members"], rfl, by decide⟩
  | declaration => exact ⟨[.required "declarators"], rfl, by decide⟩
  | function => exact ⟨[.optional "name", .optional "params", .optional "body"], rfl, by decide⟩

theorem lookup_insert_of_ne {before after : List (String × Value)} {name key : String} {v : Value}
    (h : name ≠ key) :
    (before ++ (key, v) :: after).lookup name = (before ++ after).lookup name := by
  rw [List.lookup_append, List.lookup_append, List.lookup_cons, beq_false_of_ne h]

namespace Arguments
variable {signature : Signature} {others : List Parameter} {key : String}
  {positional : List Value} {before after : List (String × Value)}

/-- No parameter before the last one has its name. -/
theorem getElem?_names_ne (params : signature.params = others ++ [.optional key])
    (last : ∀ p ∈ others, p.name ≠ key) {i : Nat} (hi : i < others.length) :
    (signature.params.map (·.name))[i]? ≠ some key := by
  rw [params, List.map_append, List.getElem?_append_left (by simpa using hi)]
  intro found
  obtain ⟨p, hp, name⟩ := List.mem_map.1 (List.mem_of_getElem? found)
  exact last p hp name

/-- An argument under the name of the last parameter fits if none by position is for it. -/
theorem nameFault?_last (args : Arguments)
    (params : signature.params = others ++ [.optional key]) (new : key ≠ "self")
    (last : ∀ p ∈ others, p.name ≠ key) (free : args.positional.length ≤ others.length) :
    args.nameFault? signature key = none := by
  unfold nameFault?
  cases place : signature.names.idxOf? key with
  | none =>
      have known : key ∈ signature.names := by simp [Signature.names, params, Parameter.optional]
      exact absurd known (List.idxOf?_eq_none_iff.1 place)
  | some i =>
      refine if_neg fun early => ?_
      obtain ⟨bound, found, -⟩ := List.idxOf?_eq_some_iff.1 place
      replace found : signature.names[i]? = some key := by
        rw [List.getElem?_eq_getElem bound, found]
      cases i with
      | zero => exact new (Option.some.inj found).symm
      | succ i => exact getElem?_names_ne params last (by omega) found

/-- An argument for an optional last parameter does not matter to whether the arguments fit, nor
to what is wrong with them. -/
theorem fault?_insert_last (v : Value) (params : signature.params = others ++ [.optional key])
    (new : key ≠ "self") (last : ∀ p ∈ others, p.name ≠ key)
    (free : positional.length ≤ others.length) :
    fault? ⟨positional, before ++ (key, v) :: after⟩ signature =
      fault? ⟨positional, before ++ after⟩ signature := by
  have some : signature.params ≠ [] := by simp [params]
  have names : (before ++ (key, v) :: after).findSome? (fun arg =>
        nameFault? ⟨positional, before ++ (key, v) :: after⟩ signature arg.1) =
      (before ++ after).findSome? fun arg =>
        nameFault? ⟨positional, before ++ after⟩ signature arg.1 := by
    rw [List.findSome?_append, List.findSome?_append, List.findSome?_cons,
      nameFault?_last _ params new last free]
    rfl
  have missing : missing ⟨positional, before ++ (key, v) :: after⟩ signature =
      missing ⟨positional, before ++ after⟩ signature := by
    refine congrArg (List.map _) (List.filter_congr fun p mem => ?_)
    rcases List.mem_append.1 (params ▸ List.mem_of_mem_drop mem) with other | optional
    · rw [lookup_insert_of_ne (last p other)]
    · rw [List.mem_singleton.1 optional]
      rfl
  rw [fault?, fault?, if_neg some, if_neg some, names, missing]

/-- Arguments by position that are for the parameters before the last one leave it free. -/
theorem lookup_zip_last (params : signature.params = others ++ [.optional key])
    (last : ∀ p ∈ others, p.name ≠ key) (free : positional.length ≤ others.length) :
    ((signature.params.map (·.name)).zip positional).lookup key = none := by
  refine List.lookup_eq_none_iff.2 fun arg mem => bne_iff_ne.2 fun same => ?_
  obtain ⟨i, found⟩ := List.getElem?_of_mem mem
  obtain ⟨name, value⟩ := List.getElem?_zip_eq_some.1 found
  have bound := List.getElem?_eq_some_iff.1 value |>.1
  exact getElem?_names_ne params last (by omega) (name.trans (by rw [same]))

theorem assign_of_fits {args : Arguments} (h : args.fault? signature = none) :
    args.assign signature =
      .ok ((signature.params.map (·.name)).zip args.positional ++ args.named) := by
  rw [assign, h]

end Arguments

namespace Action

/-- Build a node from arguments under the names of parameters, without registering it. -/
def raise (kind : Kind) (assigned : List (String × Value)) : Action NodeId := do
  let draft ← Draft.ofArguments kind assigned
  assemble draft.shape

/-- A construction from arguments that fit. -/
theorem construct_of_assign {kind : Kind} {args : Arguments} {assigned : List (String × Value)}
    (h : args.assign kind.signature = .ok assigned) :
    construct kind args = do
      let id ← raise kind assigned
      register (kind.owner assigned) id
      return id := by
  funext w
  obtain ⟨draft, w₁, drafted, -⟩ := Draft.ofArguments_prepares kind assigned w
  rw [construct, h, raise, bind_assoc, bind_of_ok drafted]
  refine (bind_of_ok (f := build) drafted).trans ?_
  rw [build, Draft.owner_of_ofArguments drafted]

/-- What is built depends on no program. -/
theorem raise_congr {kind : Kind} {assigned assigned' : List (String × Value)}
    (h : ∀ name, name ≠ "module" → assigned.lookup name = assigned'.lookup name) :
    raise kind assigned = raise kind assigned' := by
  cases kind <;> simp [raise, Draft.ofArguments, Draft.listOrNew, h]

/-- Without a program nothing is registered. -/
theorem construct_of_assign_unregistered {kind : Kind} {args : Arguments}
    {assigned : List (String × Value)} (h : args.assign kind.signature = .ok assigned)
    (absent : kind.owner assigned = .null) : construct kind args = raise kind assigned := by
  rw [construct_of_assign h, absent]
  exact bind_pure _

theorem construct_of_fault {kind : Kind} {args : Arguments} {fault : Fault}
    (h : args.fault? kind.signature = some fault) : construct kind args = throw fault := by
  rw [construct, Arguments.assign, h]
  rfl

/-- A node that is registered as it is constructed is constructed and then pushed. It makes no
difference what it is to be registered in, nor which of the two fails. The arguments by position
are for the parameters before the program, as many of them as there may be. -/
theorem construct_eq_push {kind : Kind} {owner : Value} {positional : List Value}
    (before after : List (String × Value)) (registrable : kind.isRegistrable)
    (present : owner ≠ .null) (free : positional.length < kind.parameters.length)
    (once : ∀ arg ∈ before ++ after, arg.1 ≠ "module") :
    construct kind ⟨positional, before ++ ("module", owner) :: after⟩ = do
      let id ← construct kind ⟨positional, before ++ after⟩
      let _ ← push owner [.node id]
      return id := by
  obtain ⟨others, params, last⟩ := kind.parameters_of_isRegistrable registrable
  replace free : positional.length ≤ others.length := by
    rw [params, List.length_append, List.length_singleton] at free
    omega
  have same : Arguments.fault? ⟨positional, before ++ ("module", owner) :: after⟩ kind.signature =
      Arguments.fault? ⟨positional, before ++ after⟩ kind.signature :=
    Arguments.fault?_insert_last owner params (by decide) last free
  cases fits : Arguments.fault? ⟨positional, before ++ after⟩ kind.signature with
  | some fault =>
      rw [construct_of_fault fits, construct_of_fault (same.trans fits)]
      rfl
  | none =>
      -- The two constructions are assigned the same but for the program.
      let early := (kind.signature.params.map (·.name)).zip positional
      have unplaced : early.lookup "module" = none := Arguments.lookup_zip_last params last free
      have unnamed : ∀ args, args ⊆ before ++ after → args.lookup "module" = none := fun args sub =>
        List.lookup_eq_none_iff.2 fun arg mem => bne_iff_ne.2 (once arg (sub mem)).symm
      have without : kind.owner (early ++ (before ++ after)) = .null := by
        rw [Kind.owner, if_pos registrable, argument, List.lookup_append, unplaced,
          unnamed _ (List.Subset.refl _)]
        rfl
      have within : kind.owner (early ++ (before ++ ("module", owner) :: after)) = owner := by
        rw [Kind.owner, if_pos registrable, argument, List.lookup_append, List.lookup_append,
          unplaced, unnamed _ (List.subset_append_left _ _), List.lookup_cons_self]
        rfl
      have raised : raise kind (early ++ (before ++ ("module", owner) :: after)) =
          raise kind (early ++ (before ++ after)) := by
        refine raise_congr fun name other => ?_
        rw [← List.append_assoc, lookup_insert_of_ne other, List.append_assoc]
      rw [construct_of_assign (Arguments.assign_of_fits (same.trans fits)),
        construct_of_assign_unregistered (Arguments.assign_of_fits fits) without, within, raised]
      simp only [early, register, if_neg present, bind_assoc, pure_bind]

end Action

/-- The elements of the program become the parameters of a function that is registered in it, and
a conditional fails on its branch once it has adopted its condition. -/
theorem World.site_construct_eq_push :
    Action.construct .function ⟨[.text "f"], [("params", .list ⟨0⟩), ("module", .node ⟨0⟩)]⟩ site =
      (do
        let id ← Action.construct .function ⟨[.text "f"], [("params", .list ⟨0⟩)]⟩
        let _ ← Action.push (.node ⟨0⟩) [.node id]
        return id : Action NodeId) site ∧
    Action.construct .conditional ⟨[.node ⟨1⟩], [("module", .list ⟨0⟩), ("then_statement", .int 5)]⟩
        site =
      (do
        let id ← Action.construct .conditional ⟨[.node ⟨1⟩], [("then_statement", .int 5)]⟩
        let _ ← Action.push (.list ⟨0⟩) [.node id]
        return id : Action NodeId) site :=
  ⟨congrFun (Action.construct_eq_push [("params", .list ⟨0⟩)] [] rfl
      (by decide) (by decide) (by decide)) site,
    congrFun (Action.construct_eq_push [] [("then_statement", .int 5)] rfl
      (by decide) (by decide) (by decide)) site⟩

end ScriptGraph
