import Injector.Graph.Chain
import Injector.Hint.Expansion
import Injector.Resolution.Member
import Injector.Wiring

/-!
# Resolution

From the entry points to a graph in which everything that is needed has a definition. The work is
an agenda: the first task is done on the graph, and the tasks that it gives rise to go before the
others. A definition is made when its identifier is first asked for; from then on it is only
completed and counted.
-/

namespace Injector

/-- What is still to be done. -/
inductive Task
  /-- See to it that an identifier has a complete definition, for a consumer if there is one, and
  that the consumer has a branch if it needs one; `placed` tells whether definitions made on the
  way go to files of their own. -/
  | request (id : Identifier) (consumer : Option Identifier) (placed : Bool)
  /-- See to it that a consumer has a branch of an identifier, if it needs one. -/
  | check (id : Identifier) (consumer : Option Identifier)
  /-- Count a reference from a consumer to an identifier. -/
  | count (id consumer : Identifier) (singleton : Bool)
  /-- Find out the fields of a class whose arguments are known. -/
  | discoverFields (c : ClassDefinition) (placed : Bool)
  /-- Enter the arguments, the fields and the source of a class. -/
  | complete (c : ClassDefinition)
  /-- Give up. -/
  | fail (e : Error)

/-! ### The tasks of a class -/

/-- The tasks for a member of a class whose value comes from a source. -/
def memberTasks (c : ClassDefinition) (kind : MemberKind) (placed : Bool) (name : String) :
    Option Source → List Task
  | some (.dependency id) => [.request id (some c.id) placed, .count id c.id c.scope.isSingleton]
  | some _ => []
  | none => [.fail (.unresolvable c.id kind name)]

/-- The task for overrides that name no member. -/
def overrideTasks (c : ClassDefinition) (kind : MemberKind) (overrides : Overrides)
    (names : List String) : List Task :=
  match unknownNames overrides names with
  | [] => []
  | unknown => [.fail (.unknownOverrides c.id kind unknown)]

/-- The tasks for the parameters of a class. -/
def parameterTasks (c : ClassDefinition) (placed : Bool) (ps : List Parameter) : List Task :=
  (ps.flatMap fun p =>
    memberTasks c .parameter placed p.name (p.source? c.overriddenParameters))
    ++ overrideTasks c .parameter c.overriddenParameters (ps.map (·.name))

/-- The tasks for a field of a class. -/
def fieldTask (c : ClassDefinition) (placed : Bool) (f : Field) : List Task :=
  if f.isInjected c.overriddenFields then
    if f.isStatic then [.fail (.staticField c.id f.name)]
    else memberTasks c .field placed f.name (f.source? c.overriddenFields)
  else []

/-- The tasks for the fields of a class. -/
def fieldTasks (c : ClassDefinition) (placed : Bool) (fs : List Field) : List Task :=
  fs.flatMap (fieldTask c placed)
    ++ overrideTasks c .field c.overriddenFields (fs.map (·.name))

/-! ### Changes of the graph -/

/-- The definition of a class whose discovery begins. -/
def Definition.begun : Definition → Definition
  | .cls c => .cls { c with progress := .inProgress }
  | d => d

/-- The definition of a class with what was discovered. -/
def Definition.completed (found : ClassDefinition) : Definition → Definition
  | .cls c =>
    .cls { c with
      arguments := found.arguments
      fields := found.fields
      sourceUnit := found.sourceUnit
      progress := .resolved }
  | d => d

/-! ### One task -/

namespace Wiring

/-- The parameters into which something is injected. -/
def parametersOf (w : Wiring) (cls : Identifier) : Except Error (List Parameter) :=
  if w.config.injection.constructor then w.provider.parameters cls else pure []

/-- The fields into which something may be injected. -/
def fieldsOf (w : Wiring) (cls : Identifier) : Except Error (List Field) :=
  if w.config.injection.fields then w.provider.fields cls else pure []

/-- Begin the discovery of a class. -/
def discover (w : Wiring) (g : Graph) (c : ClassDefinition) (placed : Bool) :
    Except Error (Graph × List Task) := do
  let source ← w.provider.sourceUnit c.id
  let ps ← w.parametersOf c.id
  let found :=
    { c with
      sourceUnit := source, arguments := arguments c.overriddenParameters 0 ps, fields := [] }
  let tasks := if w.config.injection.constructor then parameterTasks c placed ps else []
  return (g.adjust c.id Definition.begun, tasks ++ [.discoverFields found placed])

/-- Find out the fields of a class. -/
def discoverFields (w : Wiring) (g : Graph) (c : ClassDefinition) (placed : Bool) :
    Except Error (Graph × List Task) := do
  let fs ← w.fieldsOf c.id
  let tasks := if w.config.injection.fields then fieldTasks c placed fs else []
  return (g, tasks ++ [.complete { c with fields := injectedFields c.overriddenFields fs }])

/-- The definition of a class that no hint names. -/
def ownDefinition (w : Wiring) (id : Identifier) (placed : Bool) : ClassDefinition :=
  classDefinition w.entries id {} placed

/-- The task for an identifier that is asked for directly: this counts as a reference of the
identifier to its own target. -/
def directTasks (id : Identifier) (consumer : Option Identifier) (d : Definition) : List Task :=
  match consumer, d.forward? id with
  | none, some target => [.count target id d.scope.isSingleton]
  | _, _ => []

/-- The tasks after the definitions for `id` have been made from a hint. -/
def hintedTasks (g : Graph) (id : Identifier) (consumer : Option Identifier) (placed : Bool)
    (made : List Identifier) : List Task :=
  let requests := (made.filter (· ≠ id)).map fun k => Task.request k (some id) placed
  requests ++ match g.find? id with
    | none => []
    | some (.cls _) => [.request id consumer placed]
    | some d =>
      d.dependencies.map (fun k => Task.request k (some id) placed) ++ directTasks id consumer d

/-- Make the definitions of an identifier that has none. -/
def define (w : Wiring) (g : Graph) (id : Identifier) (consumer : Option Identifier)
    (placed : Bool) : Except Error (Graph × List Task) :=
  let here := placed && !w.config.staysInline id
  match w.hints.find? id with
  | some hint => do
    let definitions ← hint.definitions w.entries w.hints id here
    let (g, made) := g.insertAll <| definitions.map fun e =>
      (e.1, if w.config.staysInline e.1 then e.2.clearPlacement else e.2)
    return (g, hintedTasks g id consumer placed made ++ [.check id consumer])
  | none =>
    return (g.insertIfAbsent (.cls (w.ownDefinition id here)), [.request id consumer placed])

/-- Whether a consumer has the branch that it needs. -/
def checkBranch (g : Graph) (id : Identifier) (consumer : Option Identifier) :
    Except Error Unit :=
  match g.find? id with
  | some (.perConsumer _ _ _ default branches) =>
    match Definition.branchFor? default branches consumer with
    | some _ => .ok ()
    | none => .error (.unboundContext id consumer)
  | _ => .ok ()

/-- Do a task: the graph afterwards, and the tasks that come next. -/
def perform (w : Wiring) (g : Graph) : Task → Except Error (Graph × List Task)
  | .request id consumer placed =>
    match g.find? id with
    | none => w.define g id consumer placed
    | some (.cls c) =>
      if c.progress = .pending then w.discover g c placed else .ok (g, [])
    | some _ => .ok (g, [.check id consumer])
  | .check id consumer => do
    checkBranch g id consumer
    return (g, [])
  | .count id consumer singleton => .ok (g.recordReference consumer singleton id, [])
  | .discoverFields c placed => w.discoverFields g c placed
  | .complete c => .ok (g.adjust c.id (Definition.completed c), [])
  | .fail e => .error e

/-! ### The agenda -/

/-- Work through an agenda. There is no result if the tasks never come to an end, as with a provider
that names ever new types. -/
def run (w : Wiring) (g : Graph) : List Task → Option (Except Error Graph)
  | [] => some (.ok g)
  | t :: rest =>
    match w.perform g t with
    | .error e => some (.error e)
    | .ok (g, next) => w |>.run g (next ++ rest)
partial_fixpoint

/-- The graph before anything is asked for: the container and its interfaces. -/
def seed (c : Config) : Graph :=
  c.container.interfaces.foldl (fun g id =>
    g.insertIfAbsent (.alias { id, target := c.container.name, isContainer := true }))
    (({} : Graph).insertIfAbsent (.container c.container.name))

/-- The request for an entry point. -/
def rootTask (w : Wiring) (id : Identifier) : Task :=
  .request id none ((w.entries.find? id).any w.placesBelow)

/-- The sources that every proxy activates first, in order. -/
def alwaysActivated (w : Wiring) : Except Error (List String) := do
  let units ← w.config.autoload.always.mapM w.provider.sourceUnit
  return firstOccurrences (units.filterMap fun u => u)

/-- The entry points that get a proxy. -/
def wrappedEntries (w : Wiring) : List Identifier :=
  w.entries.entries.flatMap fun e => e.ids.filter (w.config.wraps · e.autoload)

/-- Put the entry points that get a proxy behind the activation of their sources. -/
def wrapEntries (w : Wiring) (always : List String) (g : Graph) : Graph :=
  w.wrappedEntries.foldl (·.wrap always) g

/-- The graph of some entry points before any of them is asked for. -/
def start (w : Wiring) (roots : List Identifier) : Graph :=
  roots.foldl (·.declare) (seed w.config)

/-- The graph of some entry points and all that they need. -/
def resolve (w : Wiring) (roots : List Identifier) : Except Error Graph := do
  let g ← (w.run (w.start roots) (roots.map w.rootTask)).getD (.error .unfinished)
  return w.wrapEntries (← w.alwaysActivated) g

/-- The graph of all declared entry points. -/
def resolveAll (w : Wiring) : Except Error Graph := w.resolve w.entries.identifiers

/-- The graph of one declared entry point. -/
def resolveOne (w : Wiring) (id : Identifier) : Except Error Graph :=
  if w.entries.contains id then w.resolve [id] else .error (.unknownEntryPoint id)

/-- The graph of all declared entry points, or of one. -/
def resolveFor (w : Wiring) : (entry : Option Identifier) → Except Error Graph
  | none => w.resolveAll
  | some id => w.resolveOne id

/-- The entry points that a graph is asked for. -/
def rootsFor (w : Wiring) : (entry : Option Identifier) → List Identifier
  | none => w.entries.identifiers
  | some id => [id]

end Wiring

end Injector
