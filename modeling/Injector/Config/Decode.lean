import Injector.Config
import Injector.Document.Json.Reader
import Injector.Document.Yaml.Reader
import Injector.Error

/-!
# Reading configurations

A configuration from a node, and so from a text in either format. Choices that carry no mark are
tried in a fixed order on settled nodes: an override is a reference before it is a value, an entry
point covers one identifier before a namespace, and a hint is a table of consumers before a class
before mere settings.
-/

namespace Injector

open Node

/-! ### Values -/

/-- The literal that an atom is. A whole number beyond 64 bits with a sign is a floating-point
one. -/
def Literal.ofScalar? : Scalar → Option Literal
  | .null => some .null
  | .bool b => some (.bool b)
  | .integer n =>
    if -(twoTo 63 : Int) ≤ n ∧ n < twoTo 63 then some (.integer (Int64.ofInt n))
    else some (.float (.ofRatio (n < 0) n.natAbs 1))
  | .float x => some (.float x)
  | .text s => some (.text s)
  | .unreadable => none

mutual

def Literal.ofSettled? : Node → Option Literal
  | .atom a => ofScalar? a.scalar
  | .list _ items => (ofSettledItems? items).map .list
  | .object _ => none
  | .marked _ => none

def Literal.ofSettledItems? : List Node → Option (List Literal)
  | [] => some []
  | n :: ns => do
    let a ← ofSettled? n
    let as ← ofSettledItems? ns
    return a :: as

end

def Literal.ofNode? (n : Node) : Option Literal := n.settle.bind ofSettled?

def OverrideValue.ofSettled? (n : Node) : Option OverrideValue :=
  let reference : Option OverrideValue :=
    match n.record? ["reference"] with
    | some [path] => (required? text? path).map .reference
    | _ => none
  reference.or ((Literal.ofSettled? n).map .value)

def OverrideValue.ofNode? (n : Node) : Option OverrideValue := n.settle.bind ofSettled?

def Overrides.ofNode? (n : Node) : Option Overrides := n.table? OverrideValue.ofNode?

def Scope.ofNode? (n : Node) : Option Scope :=
  n.word? [("singleton", .singleton), ("prototype", .prototype)]

def identifiers? (n : Node) : Option (List Identifier) := n.list? text?

/-! ### Entry points -/

/-- What an entry point covers, from the members that are not its own. -/
def EntryTarget.ofSettled? (n : Node) : Option EntryTarget :=
  let single : Option EntryTarget :=
    match n.record? ["class"] with
    | some [cls] => (required? text? cls).map .single
    | _ => none
  let below : Option EntryTarget :=
    match n.record? ["namespace", "recursive", "only_concrete"] with
    | some [path, recursive, onlyConcrete] => do
      return .below (← required? text? path) (← withDefault? true bool? recursive)
        (← withDefault? true bool? onlyConcrete)
    | _ => none
  single.or below

def EntryConfig.ownMembers : List String := ["file_based", "autoload", "parameters", "fields"]

/-- The members of an object that are not among some names; their keys are texts. -/
def otherMembers (names : List String) (n : Node) : Option Node :=
  match n.unmarked with
  | .object members =>
    let others := members.filter fun m => !(m.1.text?.any names.contains)
    (others.mapM fun (m : Node × Node) => m.1.text?.map fun s => (.ofText s, m.2)).map Node.object
  | _ => none

/-- The entry point of a node. The members that say what it covers stand beside its own. -/
def EntryConfig.ofNode? (n : Node) : Option EntryConfig :=
  match n.record? ownMembers with
  | some [fileBased, autoload, parameters, fields] => do
    let others ← otherMembers ownMembers n
    return {
      target := ← others.settle.bind EntryTarget.ofSettled?
      fileBased := ← withDefault? false bool? fileBased
      autoload := ← withDefault? false bool? autoload
      parameters := ← withDefault? .empty Overrides.ofNode? parameters
      fields := ← withDefault? .empty Overrides.ofNode? fields }
  | _ => none

/-! ### Hints -/

def ClassSettings.ofMembers? (scope parameters fields : Option Node) : Option ClassSettings := do
  return {
    scope := ← withDefault? .singleton Scope.ofNode? scope
    parameters := ← withDefault? .empty Overrides.ofNode? parameters
    fields := ← withDefault? .empty Overrides.ofNode? fields }

def ContextTable.ofNode? (n : Node) : Option ContextTable :=
  match n.section? ["default", "consumers", "scope"] with
  | some [default, consumers, scope] => do
    return {
      default := ← withDefault? none (optional? text?) default
      consumers := ← withDefault? .empty (table? text?) consumers
      scope := ← withDefault? .singleton Scope.ofNode? scope }
  | _ => none

def HintConfig.ofSettled? (n : Node) : Option HintConfig :=
  let context : Option HintConfig :=
    match n.record? ["context"] with
    | some [table] => (required? ContextTable.ofNode? table).map .context
    | _ => none
  let implementation : Option HintConfig :=
    match n.record? ["class", "scope", "parameters", "fields"] with
    | some [cls, scope, parameters, fields] => do
      return .implementation (← required? text? cls)
        (← ClassSettings.ofMembers? scope parameters fields)
    | _ => none
  let own : Option HintConfig :=
    match n.record? ["scope", "parameters", "fields"] with
    | some [scope, parameters, fields] =>
      (ClassSettings.ofMembers? scope parameters fields).map .own
    | _ => none
  (context.or implementation).or own

def HintConfig.ofNode? (n : Node) : Option HintConfig := n.settle.bind ofSettled?

def WildcardConfig.ofNode? (n : Node) : Option WildcardConfig :=
  match n.section? ["source", "target", "scope"] with
  | some [source, target, scope] => do
    return {
      source := ← required? text? source
      target := ← required? text? target
      scope := ← withDefault? .singleton Scope.ofNode? scope }
  | _ => none

/-! ### Sections -/

def ContainerSection.ofNode? (n : Node) : Option ContainerSection :=
  match n.section? ["name", "interfaces"] with
  | some [name, interfaces] => do
    let base : ContainerSection := {}
    return {
      name := ← withDefault? base.name text? name
      interfaces := ← withDefault? base.interfaces identifiers? interfaces }
  | _ => none

def InjectionSection.ofNode? (n : Node) : Option InjectionSection :=
  match n.section? ["constructor", "fields"] with
  | some [constructor, fields] => do
    let base : InjectionSection := {}
    return {
      constructor := ← withDefault? base.constructor bool? constructor
      fields := ← withDefault? base.fields bool? fields }
  | _ => none

def AutoloadSection.ofNode? (n : Node) : Option AutoloadSection :=
  match n.section? ["enabled", "excluded", "always_autoload"] with
  | some [enabled, excluded, always] => do
    let base : AutoloadSection := {}
    return {
      enabled := ← withDefault? base.enabled bool? enabled
      excluded := ← withDefault? base.excluded identifiers? excluded
      always := ← withDefault? base.always identifiers? always }
  | _ => none

def FileSection.ofNode? (n : Node) : Option FileSection :=
  match n.section? ["enabled", "directory", "excluded"] with
  | some [enabled, directory, excluded] => do
    let base : FileSection := {}
    return {
      enabled := ← withDefault? base.enabled bool? enabled
      directory := ← withDefault? base.directory text? directory
      excluded := ← withDefault? base.excluded identifiers? excluded }
  | _ => none

def OutputSection.ofNode? (n : Node) : Option OutputSection :=
  match n.section? ["container_file"] with
  | some [containerFile] => do
    let base : OutputSection := {}
    return { containerFile := ← withDefault? base.containerFile text? containerFile }
  | _ => none

namespace Config

def sections : List String :=
  ["container", "injection", "entry_points", "hints", "wildcard_hints", "autoload", "file_based",
    "output"]

def ofNode? (n : Node) : Option Config :=
  match n.section? sections with
  | some [container, injection, entryPoints, hints, wildcards, autoload, files, output] => do
    return {
      container := ← withDefault? {} ContainerSection.ofNode? container
      injection := ← withDefault? {} InjectionSection.ofNode? injection
      entryPoints := ← withDefault? [] (list? EntryConfig.ofNode?) entryPoints
      hints := ← withDefault? .empty (table? HintConfig.ofNode?) hints
      wildcards := ← withDefault? [] (list? WildcardConfig.ofNode?) wildcards
      autoload := ← withDefault? {} AutoloadSection.ofNode? autoload
      files := ← withDefault? {} FileSection.ofNode? files
      output := ← withDefault? {} OutputSection.ofNode? output }
  | _ => none

def ofJson (s : String) : Except Error Config :=
  ((Json.read? s).bind ofNode?).elim (.error .json) .ok

def ofYaml (s : String) : Except Error Config :=
  ((Yaml.read? s).bind ofNode?).elim (.error .yaml) .ok

end Config

end Injector
