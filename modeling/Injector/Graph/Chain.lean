import Injector.Graph

/-!
# Forwarding

An alias forwards to its target, and an identifier that depends on its consumer forwards to the
target of the consumer's branch. The chain of an identifier is what a consumer goes through when
it asks for it; a chain that comes back to itself ends there.
-/

namespace Injector

/-- The target of an alias that does not stand for the container. -/
def Definition.aliasTarget? : Definition → Option Identifier
  | .alias a => if a.isContainer then none else some a.target
  | _ => none

/-- Where a definition forwards a consumer to. -/
def Definition.forward? (consumer : Identifier) : Definition → Option Identifier
  | .perConsumer _ _ _ default branches =>
    (branchFor? default branches (some consumer)).bind aliasTarget?
  | d => d.aliasTarget?

namespace Graph

/-- Where the definition of an identifier forwards a consumer to. -/
def forward? (g : Graph) (consumer id : Identifier) : Option Identifier :=
  (g.find? id).bind (·.forward? consumer)

/-- The chain of an identifier through identifiers that are still unmet. -/
def chainWithin (g : Graph) (consumer : Identifier) (unmet : List Identifier)
    (id : Identifier) : List Identifier :=
  if id ∈ unmet then
    id :: match g.forward? consumer id with
      | some next => g.chainWithin consumer (unmet.erase id) next
      | none => []
  else []
termination_by unmet.length
decreasing_by
  next h => grind [List.length_erase_of_mem, List.length_pos_of_mem]

/-- The identifiers that a consumer goes through when it asks for one, that one first. -/
def chain (g : Graph) (consumer id : Identifier) : List Identifier :=
  g.chainWithin consumer g.identifiers id

/-- Count a reference from a consumer on every definition that it goes through. -/
def recordReference (g : Graph) (consumer : Identifier) (singleton : Bool) (id : Identifier) :
    Graph :=
  (g.chain consumer id).foldl (·.addReferrer consumer singleton) g

end Graph

end Injector
