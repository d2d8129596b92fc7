import Injector.Config

/-!
# Definitions

A definition says how the instance behind one identifier is built: by the constructor of a class,
by building another identifier, by handing out the container itself, by a choice that depends on
the consumer, or by any of these after sources have been activated.
-/

namespace Injector

/-! ### Parts of definitions -/

/-- Where the value of an argument or a field comes from. -/
inductive Source
  | dependency (id : Identifier)
  | value (literal : Literal)
  /-- The value of a path, written as it stands. -/
  | reference (path : String)
deriving DecidableEq, Repr

/-- The identifier that has to be built for a source. -/
def Source.dependency? : Source → Option Identifier
  | .dependency id => some id
  | _ => none

def OverrideValue.source : OverrideValue → Source
  | .reference path => .reference path
  | .value literal => .value literal

/-- An argument of a constructor. -/
structure Argument where
  /-- Its place among the parameters, from zero. -/
  position : Nat
  name : String
  source : Source
deriving DecidableEq, Repr

/-- A field that is set after construction. -/
structure FieldValue where
  name : String
  source : Source
deriving DecidableEq, Repr

/-- How one consumer refers to a definition. -/
structure Referrer where
  /-- How often it does: once for each member that needs the definition, and once if it is an entry
  point that leads there. No class has members enough for this to come to `2 ^ 32`. -/
  count : Nat
  /-- Whether it lives as a singleton. -/
  singleton : Bool
deriving DecidableEq, Repr

abbrev Referrers := Table Referrer

def Referrers.increase (r : Referrers) (consumer : Identifier) (singleton : Bool) : Referrers :=
  let before := (r.find? consumer).getD ⟨0, false⟩
  r.insert consumer ⟨before.count + 1, before.singleton || singleton⟩

/-- How far the dependencies of a class have been discovered. -/
inductive Progress
  | pending
  | inProgress
  | resolved
deriving DecidableEq, Repr, Inhabited

/-- A class that is built by its constructor. -/
structure ClassDefinition where
  id : Identifier
  scope : Scope := .singleton
  entryPoint : Bool := false
  /-- Whether its body goes to a file of its own. -/
  fileBased : Bool := false
  arguments : List Argument := []
  fields : List FieldValue := []
  overriddenParameters : Overrides := .empty
  overriddenFields : Overrides := .empty
  referrers : Referrers := .empty
  progress : Progress := .pending
  /-- Where its source is. -/
  sourceUnit : Option String := none
deriving DecidableEq, Repr

/-- An identifier that is built by building another one. -/
structure Alias where
  id : Identifier
  target : Identifier
  /-- The scope that the binding declares. -/
  scope : Scope := .singleton
  entryPoint : Bool := false
  /-- Whether its body goes to a file of its own. -/
  fileBased : Bool := false
  /-- Whether it stands for the container itself. -/
  isContainer : Bool := false
  referrers : Referrers := .empty
deriving DecidableEq, Repr

/-- Add overrides to those of a class; later ones win. -/
def ClassDefinition.withOverrides (c : ClassDefinition) (parameters fields : Overrides) :
    ClassDefinition :=
  { c with
    overriddenParameters := c.overriddenParameters.override parameters
    overriddenFields := c.overriddenFields.override fields }

/-- The identifiers that have to be built for the members of a class, in order. -/
def ClassDefinition.dependencies (c : ClassDefinition) : List Identifier :=
  (c.arguments.map (·.source) ++ c.fields.map (·.source)).filterMap Source.dependency?

/-- How the instance behind an identifier is built. -/
inductive Definition
  | cls (c : ClassDefinition)
  | alias (a : Alias)
  | container (id : Identifier)
  /-- By the branch of the consumer, or else the default branch. -/
  | perConsumer (id : Identifier) (scope : Scope) (entryPoint : Bool)
      (default : Option Definition) (branches : List (Identifier × Definition))
  /-- By an inner definition, after sources have been activated. -/
  | autoloaded (inner : Definition) (fileBased : Bool) (always : List String)
deriving Repr

namespace Definition

/-! ### What a definition says -/

def id : Definition → Identifier
  | .cls c => c.id
  | .alias a => a.id
  | .container id => id
  | .perConsumer id .. => id
  | .autoloaded inner .. => inner.id

def kind : Definition → String
  | .cls _ => "class"
  | .alias _ => "reference"
  | .container _ => "self"
  | .perConsumer .. => "context-dependent"
  | .autoloaded .. => "autoloaded"

/-- The declared scope; the container is a singleton. -/
def scope : Definition → Scope
  | .cls c => c.scope
  | .alias a => a.scope
  | .container _ => .singleton
  | .perConsumer _ scope .. => scope
  | .autoloaded inner .. => inner.scope

def isEntryPoint : Definition → Bool
  | .cls c => c.entryPoint
  | .alias a => a.entryPoint
  | .container _ => false
  | .perConsumer _ _ entryPoint .. => entryPoint
  | .autoloaded inner .. => inner.isEntryPoint

def isFileBased : Definition → Bool
  | .cls c => c.fileBased
  | .alias a => a.fileBased
  | .container _ => false
  | .perConsumer .. => false
  | .autoloaded _ fileBased _ => fileBased

/-- Whether the dependencies are still to be discovered. -/
def isPending : Definition → Bool
  | .cls c => c.progress = .pending
  | .autoloaded inner .. => inner.isPending
  | _ => false

/-- The consumers, if they are kept. -/
def referrers? : Definition → Option Referrers
  | .cls c => some c.referrers
  | .alias a => some a.referrers
  | .autoloaded inner .. => inner.referrers?
  | _ => none

/-- Where the source of the built type is, if that is known. -/
def sourceUnit? : Definition → Option String
  | .cls c => c.sourceUnit
  | .autoloaded inner .. => inner.sourceUnit?
  | _ => none

mutual

/-- The identifiers that have to be built, in the order they are met. -/
def namedDependencies : Definition → List Identifier
  | .cls c => c.dependencies
  | .alias a => if a.isContainer then [] else [a.target]
  | .container _ => []
  | .perConsumer _ _ _ default branches =>
    branchDependencies branches ++ defaultDependencies default
  | .autoloaded inner .. => inner.namedDependencies

def branchDependencies : List (Identifier × Definition) → List Identifier
  | [] => []
  | (_, d) :: rest => d.namedDependencies ++ branchDependencies rest

def defaultDependencies : Option Definition → List Identifier
  | none => []
  | some d => d.namedDependencies

end

/-- The identifiers that have to be built, in ascending order. -/
def dependencies (d : Definition) : List Identifier := sortedDistinct d.namedDependencies

@[simp] theorem mem_dependencies {d : Definition} {k : Identifier} :
    k ∈ d.dependencies ↔ k ∈ d.namedDependencies := mem_sortedDistinct

theorem mem_branchDependencies {branches : List (Identifier × Definition)} {k : Identifier} :
    k ∈ branchDependencies branches ↔ ∃ e ∈ branches, k ∈ e.2.namedDependencies := by
  induction branches with
  | nil => simp [branchDependencies]
  | cons e rest ih => obtain ⟨j, d⟩ := e; simp [branchDependencies, ih]

theorem mem_defaultDependencies {default : Option Definition} {k : Identifier} :
    k ∈ defaultDependencies default ↔ ∃ d, default = some d ∧ k ∈ d.namedDependencies := by
  cases default <;> simp [defaultDependencies]

/-- The branch of a consumer: its own, or else the default. -/
def branchFor? (default : Option Definition) (branches : List (Identifier × Definition))
    (consumer : Option Identifier) : Option Definition :=
  (consumer.bind fun c => branches.lookup c).or default

/-! ### Changes of a definition -/

mutual

def clearPlacement : Definition → Definition
  | .cls c => .cls { c with fileBased := false }
  | .alias a => .alias { a with fileBased := false }
  | .container id => .container id
  | .perConsumer id scope entryPoint default branches =>
    .perConsumer id scope entryPoint (clearDefault default) (clearBranches branches)
  | .autoloaded inner _ always => .autoloaded inner.clearPlacement false always

/-- Keep the bodies of some branches in the main file. -/
def clearBranches : List (Identifier × Definition) → List (Identifier × Definition)
  | [] => []
  | (k, d) :: rest => (k, d.clearPlacement) :: clearBranches rest

/-- Keep the body of a default branch in the main file. -/
def clearDefault : Option Definition → Option Definition
  | none => none
  | some d => some d.clearPlacement

end

/-- Count one more reference from a consumer, where consumers are kept. -/
def addReferrer (consumer : Identifier) (singleton : Bool) : Definition → Definition
  | .cls c => .cls { c with referrers := c.referrers.increase consumer singleton }
  | .alias a => .alias { a with referrers := a.referrers.increase consumer singleton }
  | .autoloaded inner fileBased always =>
    .autoloaded (inner.addReferrer consumer singleton) fileBased always
  | d => d

@[simp] theorem id_clearPlacement (d : Definition) : d.clearPlacement.id = d.id := by
  induction d using Definition.id.induct <;> simp_all [clearPlacement, id]

end Definition

end Injector
