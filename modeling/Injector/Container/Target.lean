import Injector.Error
import Injector.Graph

/-!
# Targets

What is built when a consumer asks for an identifier: aliases and branches are followed until a
class, a proxy or the container is reached. Following them fails if they lead nowhere, or back to
an identifier that was passed already.
-/

namespace Injector

/-- What is built in the end. -/
inductive Target
  /-- The container itself is handed out. -/
  | container
  /-- The identifier of a class or of a proxy is built. -/
  | factory (id : Identifier)
deriving DecidableEq, Repr

/-- One step on the way to a target. -/
inductive Hop
  /-- The way ends. -/
  | stop (t : Target)
  /-- The way goes on. -/
  | next (id : Identifier)
deriving DecidableEq, Repr

namespace Definition

/-- Where the way goes on from a branch. -/
def branchHop : Definition → Hop
  | .alias a => if a.isContainer then .stop .container else .next a.target
  | d => .next d.id

/-- Where the way goes on for a consumer from the definition of `id`. -/
def hop (consumer : Option Identifier) (id : Identifier) : Definition → Except Error Hop
  | .cls _ | .autoloaded .. => .ok (.stop (.factory id))
  | .container _ => .ok (.stop .container)
  | .alias a => .ok (if a.isContainer then .stop .container else .next a.target)
  | .perConsumer _ _ _ default branches =>
    match branchFor? default branches consumer with
    | some d => .ok d.branchHop
    | none => .error (.unboundContext id consumer)

end Definition

namespace Graph

/-- Follow the way of an identifier through identifiers that are still unmet. -/
def targetWithin (g : Graph) (consumer : Option Identifier) (unmet : List Identifier)
    (id : Identifier) : Except Error Target :=
  match g.find? id with
  | none => .error (.unknownDefinition id)
  | some d =>
    if id ∈ unmet then
      match d.hop consumer id with
      | .ok (.stop t) => .ok t
      | .ok (.next id') => g.targetWithin consumer (unmet.erase id) id'
      | .error e => .error e
    else .error (.config (.referenceCycle id))
termination_by unmet.length
decreasing_by
  next h => grind [List.length_erase_of_mem, List.length_pos_of_mem]

/-- What is built when a consumer asks for an identifier. -/
def target? (g : Graph) (consumer : Option Identifier) (id : Identifier) : Except Error Target :=
  g.targetWithin consumer g.identifiers id

end Graph

end Injector
