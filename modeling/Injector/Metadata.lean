import Injector.Error
import Injector.Literal
import Injector.Table

/-!
# Metadata of types

What is known about a type: whether it can be built, where its source is, and which parameters and
fields it has. A provider answers the questions that resolution asks; the usual one looks them up
in a table.
-/

namespace Injector

/-- A parameter of a constructor. -/
structure Parameter where
  name : String
  type : Option Identifier := none
  isOptional : Bool := false
  /-- The default of an optional parameter. -/
  default : Option Literal := none
deriving DecidableEq, Repr

/-- A field of a type. -/
structure Field where
  name : String
  type : Option Identifier := none
  isStatic : Bool := false
  /-- Whether it is marked for injection. -/
  isMarked : Bool := false
deriving DecidableEq, Repr

/-- Whether a type can be built. -/
inductive TypeKind
  | concrete
  /-- It needs a hint to be built. -/
  | abstract
deriving DecidableEq, Repr

/-- What is known about a type. -/
structure TypeInfo where
  kind : TypeKind := .concrete
  /-- Where its source is. -/
  source : Option String := none
  parameters : List Parameter := []
  fields : List Field := []
deriving DecidableEq, Repr

abbrev Metadata := Table TypeInfo

/-! ### Providers -/

/-- What answers the questions of resolution. -/
structure Provider where
  parameters : Identifier → Except Error (List Parameter)
  fields : Identifier → Except Error (List Field)
  sourceUnit : Identifier → Except Error (Option String)
  identifiers : List Identifier
  isConcrete : Identifier → Bool

namespace Metadata

/-- What is known about a type, or that it is not described. -/
def describe (m : Metadata) (id : Identifier) : Except Error TypeInfo :=
  match m.find? id with
  | some t => .ok t
  | none => .error (.introspection id .undescribed)

def describeConcrete (m : Metadata) (id : Identifier) : Except Error TypeInfo :=
  match m.describe id with
  | .ok t =>
    match t.kind with
    | .concrete => .ok t
    | .abstract => .error (.introspection id .unbound)
  | .error e => .error e

def isConcrete (m : Metadata) (id : Identifier) : Bool :=
  (m.find? id).any (·.kind = .concrete)

/-- The provider that looks everything up in a table. -/
def provider (m : Metadata) : Provider where
  parameters id := (m.describeConcrete id).map (·.parameters)
  fields id := (m.describeConcrete id).map (·.fields)
  sourceUnit id := (m.describe id).map (·.source)
  identifiers := m.keys
  isConcrete := m.isConcrete

end Metadata

namespace Provider

/-- Questions about types that a provider refuses to answer, each with its reason. -/
structure Refusals where
  parameters : Table String := .empty
  fields : Table String := .empty
  sources : Table String := .empty

/-- The answer, unless it is refused. -/
def unlessRefused {α : Type} (reasons : Table String) (answer : Identifier → Except Error α)
    (id : Identifier) : Except Error α :=
  match reasons.find? id with
  | some message => .error (.introspection id (.reported message))
  | none => answer id

def refusing (p : Provider) (r : Refusals) : Provider :=
  { p with
    parameters := unlessRefused r.parameters p.parameters
    fields := unlessRefused r.fields p.fields
    sourceUnit := unlessRefused r.sources p.sourceUnit }

/-- The provider that says what it has to, about parameters and fields, and leaves the rest to the
defaults: no type has a source, none is listed, and every one can be built. -/
def membersOnly (p : Provider) : Provider :=
  { p with
    sourceUnit := fun _ => .ok none
    identifiers := []
    isConcrete := fun _ => true }

end Provider

end Injector
