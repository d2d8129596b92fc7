import Injector.Identifier
import Injector.Literal
import Injector.Table

/-!
# Configurations

What a compilation is told: the container and its interfaces, which styles of injection apply,
which identifiers are exposed, how requested identifiers are bound, and where generated code goes.
Each part has a default.
-/

namespace Injector

/-! ### Overrides -/

/-- What a parameter or a field is given in place of an injected instance. -/
inductive OverrideValue
  /-- The value of a path, written as it stands. -/
  | reference (path : String)
  | value (literal : Literal)
deriving DecidableEq, Repr

abbrev Overrides := Table OverrideValue

/-! ### Entry points -/

/-- What a declared entry point covers. -/
inductive EntryTarget
  | single (id : Identifier)
  /-- The known identifiers below a path. -/
  | below (path : String) (recursive onlyConcrete : Bool)
deriving DecidableEq, Repr

/-- A declared entry point. -/
structure EntryConfig where
  target : EntryTarget
  /-- Whether what is reached from it goes to files of its own. -/
  fileBased : Bool := false
  /-- Whether the identifiers get a proxy that activates their sources. -/
  autoload : Bool := false
  parameters : Overrides := .empty
  fields : Overrides := .empty
deriving DecidableEq, Repr

/-! ### Hints -/

/-- How a class is built that a hint names. -/
structure ClassSettings where
  scope : Scope := .singleton
  parameters : Overrides := .empty
  fields : Overrides := .empty
deriving DecidableEq, Repr

/-- Which class each consumer of an identifier gets. -/
structure ContextTable where
  /-- The class of every consumer not listed. -/
  default : Option Identifier := none
  consumers : Table Identifier := .empty
  scope : Scope := .singleton
deriving DecidableEq, Repr

/-- A hint for one identifier. -/
inductive HintConfig
  | context (table : ContextTable)
  | implementation (cls : Identifier) (settings : ClassSettings)
  /-- It is built by itself, with other settings. -/
  | own (settings : ClassSettings)
deriving DecidableEq, Repr

/-- A hint for all identifiers of a pattern. -/
structure WildcardConfig where
  source : String
  target : String
  scope : Scope := .singleton
deriving DecidableEq, Repr

/-! ### Sections -/

/-- The container. -/
structure ContainerSection where
  /-- The path of the generated type. -/
  name : Identifier := "Container"
  /-- The identifiers that the container itself satisfies. -/
  interfaces : List Identifier := []
deriving DecidableEq, Repr

/-- The styles of injection. -/
structure InjectionSection where
  constructor : Bool := true
  fields : Bool := false
deriving DecidableEq, Repr

/-- Which entry points get a proxy that activates sources. -/
structure AutoloadSection where
  enabled : Bool := false
  /-- The identifiers that never do, and that never go to files of their own. -/
  excluded : List Identifier := []
  /-- The classes whose sources every proxy activates first. -/
  always : List Identifier := []
deriving DecidableEq, Repr

/-- Which definitions go to files of their own. -/
structure FileSection where
  enabled : Bool := false
  directory : String := "definitions"
  excluded : List Identifier := []
deriving DecidableEq, Repr

/-- The generated files. -/
structure OutputSection where
  containerFile : String := "container.rs"
deriving DecidableEq, Repr

/-- What a compilation is told. -/
structure Config where
  container : ContainerSection := {}
  injection : InjectionSection := {}
  entryPoints : List EntryConfig := []
  hints : Table HintConfig := .empty
  /-- The hints for patterns, in the order they are tried. -/
  wildcards : List WildcardConfig := []
  autoload : AutoloadSection := {}
  files : FileSection := {}
  output : OutputSection := {}
deriving DecidableEq, Repr

end Injector
