import Injector.Container.Target
import Injector.Graph.Order
import Injector.Identifier.FactoryName

/-!
# Bodies

What the generated code of a factory does, as a structure: it hands out the container, asks
another factory, calls a constructor and sets fields, or activates sources first. A body may also
stand in a file of its own, and then only a splice of that file stands in its place.
-/

namespace Injector

/-- How generated code gets at an instance. -/
inductive Access
  | container
  /-- The instance of a factory. Its body is spliced in if no method has it, and where the instance
  is kept, the kept one is tried first. -/
  | factory (name : String) (spliced kept : Bool)
deriving DecidableEq, Repr

/-- The value of an argument or of a field in generated code. -/
inductive Value
  | access (a : Access)
  | literal (l : Literal)
  | path (s : String)
deriving DecidableEq, Repr

/-- The construction of an instance of a class. -/
structure Construction where
  cls : Identifier
  arguments : List Value
  /-- The fields that are set afterwards, with their names. -/
  fields : List (String × Value)
  /-- The name under which the instance is kept, if it is. -/
  cache : Option String
deriving DecidableEq, Repr

/-- What generated code does to yield an instance. -/
inductive Body
  | access (a : Access)
  | construct (c : Construction)
  /-- It does what the body in the file of a name does. -/
  | splice (name : String)
  /-- It activates sources and then asks the factory of a name. -/
  | proxy (units : List String) (inner : String)
deriving DecidableEq, Repr

namespace Graph

/-! ### From definitions to bodies -/

/-- Whether the container has a method for a definition. A class in a file of its own has none
unless it is exposed, and neither has what is only on the way to something else. -/
def hasMethod : Definition → Bool
  | .cls c => c.entryPoint || !c.fileBased
  | .autoloaded .. => true
  | .container _ => false
  | d => d.isEntryPoint

/-- Whether the body of an identifier stands only in a file of its own. -/
def isSpliced (g : Graph) (id : Identifier) : Bool :=
  match g.find? id with
  | some (.cls c) => c.fileBased && !c.entryPoint
  | _ => false

def accessTo (g : Graph) : Target → Access
  | .container => .container
  | .factory id => .factory (factoryName id) (g.isSpliced id) (g.isCached id)

def access (g : Graph) (consumer : Option Identifier) (id : Identifier) : Except Error Access :=
  (g.target? consumer id).map g.accessTo

def value (g : Graph) (cls : Identifier) : Source → Except Error Value
  | .dependency id => (g.access (some cls) id).map .access
  | .value l => .ok (.literal l)
  | .reference path => .ok (.path path)

/-- The construction of a class, its arguments before its fields. -/
def construction (g : Graph) (c : ClassDefinition) : Except Error Construction := do
  let arguments ← c.arguments.mapM fun a => g.value c.id a.source
  let fields ← c.fields.mapM fun f => (g.value c.id f.source).map (f.name, ·)
  return ⟨c.id, arguments, fields, if g.isCached c.id then some (factoryName c.id) else none⟩

def body (g : Graph) : Definition → Except Error Body
  | .cls c => (g.construction c).map .construct
  | .alias a =>
    if a.isContainer then .ok (.access .container)
    else (g.access (some a.id) a.target).map .access
  | .container _ => .ok (.access .container)
  | .perConsumer id .. => (g.access none id).map .access
  | .autoloaded inner .. => g.body inner

/-- The sources that are activated before an identifier is built: the given ones, then those of all
that it needs, dependencies first, each once. -/
def activationUnits (g : Graph) (always : List String) (id : Identifier) : List String :=
  firstOccurrences <| always ++
    (g.dependencyOrder id).filterMap fun k => (g.find? k).bind Definition.sourceUnit?

end Graph

end Injector
