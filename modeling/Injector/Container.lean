import Injector.Config
import Injector.Container.Body

/-!
# Containers

The generated container as a structure: the methods that build instances, the fields that keep
them, the table of what is exposed, and the bodies that stand in files of their own. It can be
built only if no two identifiers share a name in it and none takes the name of a member that every
container has.
-/

namespace Injector

/-- A method of the container. -/
structure Factory where
  name : String
  isPublic : Bool
  /-- What it is for. -/
  purpose : String
  type : String
  body : Body
deriving DecidableEq, Repr

/-- A field that keeps an instance. -/
structure Cache where
  /-- Its name, which is that of the factory. -/
  name : String
  type : String
deriving DecidableEq, Repr

/-- A body in a file of its own. -/
structure PlacedBody where
  /-- The name that the file is called after. -/
  name : String
  id : Identifier
  body : Body
deriving DecidableEq, Repr

/-- The methods and the files that some definitions give rise to. -/
structure Emission where
  factories : List Factory := []
  files : List PlacedBody := []
deriving DecidableEq, Repr

/-- A generated container. -/
structure Container where
  typeName : String
  /-- How many definitions it was made from. -/
  definitionCount : Nat
  caches : List Cache
  /-- The exposed identifiers, each with the method that builds it, in order. -/
  entryRows : List (Identifier × String)
  factories : List Factory
  files : List PlacedBody
deriving DecidableEq, Repr

/-! ### Names -/

def innerSuffix : String := "__autoloaded"

def proxySuffix : String := "__proxy"

def reservedMembers : List String :=
  ["ENTRY_POINTS", "new", "with_activator", "has", "activate", "activated", "activator"]

/-- The names that the definition of an identifier takes. -/
def memberNames (id : Identifier) : Definition → List String
  | .container _ => []
  | .autoloaded _ fileBased _ =>
    let name := factoryName id
    [name, name ++ innerSuffix] ++ if fileBased then [name ++ proxySuffix] else []
  | _ => [factoryName id]

/-- See to it that no name is reserved, or taken already by an owner. -/
def checkNames (owners : List (String × Identifier)) :
    List (String × Identifier) → Except Error Unit
  | [] => .ok ()
  | (name, id) :: rest =>
    if name ∈ reservedMembers then .error (.config (.reservedMember id name))
    else
      match owners.lookup name with
      | some owner => .error (.config (.sharedName owner id name))
      | none => checkNames ((name, id) :: owners) rest

/-- The names that all definitions take, each with its identifier. -/
def Graph.allMemberNames (g : Graph) : List (String × Identifier) :=
  g.definitions.entries.flatMap fun e => (memberNames e.1 e.2).map (·, e.1)

/-! ### Types -/

def Definition.instanceType : Definition → String
  | .cls c => "Arc<" ++ c.id ++ ">"
  | .alias a => "Arc<dyn " ++ a.id ++ ">"
  | .perConsumer id .. => "Arc<dyn " ++ id ++ ">"
  | .container _ => "Arc<Self>"
  | .autoloaded inner .. => inner.instanceType

/-! ### Methods and files -/

namespace Graph

/-- The body of a method called `name` for a definition, and the file that it needs. -/
def placed (g : Graph) (d : Definition) (name : String) :
    Except Error (Body × List PlacedBody) := do
  let body ← g.body d
  if d.isFileBased then return (.splice name, [⟨name, d.id, body⟩]) else return (body, [])

/-- The methods and the files of a proxy before a definition. -/
def emitProxy (g : Graph) (inner : Definition) (fileBased : Bool) (always : List String) :
    Except Error Emission := do
  let id := inner.id
  let name := factoryName id
  let (body, files) ← g.placed inner name
  let proxy := Body.proxy (g.activationUnits always id) (name ++ innerSuffix)
  let builder : Factory :=
    { name := name ++ innerSuffix, isPublic := false, type := inner.instanceType, body
      purpose := "Builds `" ++ id ++ "` without activating its source units." }
  let front : Factory :=
    { name, isPublic := true, type := inner.instanceType
      body := if fileBased then .splice (name ++ proxySuffix) else proxy
      purpose := "Activates the source units of `" ++ id ++ "` and builds it." }
  return ⟨[builder, front],
    files ++ if fileBased then [⟨name ++ proxySuffix, id, proxy⟩] else []⟩

/-- The method and the file of a definition without a proxy. -/
def emitPlain (g : Graph) (d : Definition) : Except Error Emission := do
  let name := factoryName d.id
  if hasMethod d then
    let (body, files) ← g.placed d name
    return ⟨[{ name, isPublic := d.isEntryPoint, type := d.instanceType, body
               purpose := "Returns `" ++ d.id ++ "`." }], files⟩
  else
    match d with
    | .cls _ => return ⟨[], [⟨name, d.id, ← g.body d⟩]⟩
    | _ => return {}

def emit (g : Graph) : Definition → Except Error Emission
  | .autoloaded inner fileBased always => g.emitProxy inner fileBased always
  | d => g.emitPlain d

def caches (g : Graph) : List Cache :=
  (g.emissionOrder.filter (g.isCached ·.id)).map fun d => ⟨factoryName d.id, d.instanceType⟩

def entryRows (g : Graph) : List (Identifier × String) :=
  (g.emissionOrder.filter Definition.isEntryPoint).map fun d => (d.id, factoryName d.id)

end Graph

namespace Container

def ofGraph (typeName : String) (g : Graph) : Except Error Container := do
  checkNames [] g.allMemberNames
  let emissions ← g.emissionOrder.mapM g.emit
  return {
    typeName
    definitionCount := g.size
    caches := g.caches
    entryRows := g.entryRows
    factories := emissions.flatMap (·.factories)
    files := emissions.flatMap (·.files) }

end Container

end Injector
