import Injector.Identifier

/-!
# Errors

Every way in which reading, resolving or compiling can fail, as the cause with what it concerns,
and the wording of each in one place. An error ends the work that raised it.
-/

namespace Injector

/-- What kind of member of a class an error concerns. -/
inductive MemberKind
  | parameter
  | field
deriving DecidableEq, Repr

def MemberKind.name : MemberKind → String
  | .parameter => "constructor parameter"
  | .field => "field"

/-- Why a type could not be looked into. -/
inductive IntrospectionFault
  | undescribed
  /-- It is abstract, and no hint binds it. -/
  | unbound
  | reported (message : String)
deriving DecidableEq, Repr

def IntrospectionFault.message : IntrospectionFault → String
  | .undescribed => "type is not described by the metadata map"
  | .unbound => "type is a trait and no hint binds it to an implementation"
  | .reported message => message

/-- What is wrong with a configuration that could be read. -/
inductive ConfigFault
  | emptyPattern
  | adjacentPlaceholders (pattern : String)
  /-- A pattern hint whose two patterns differ in their placeholders. -/
  | placeholderMismatch (source target : String) (sources targets : Nat)
  | hintMismatch (source : String) (id : Identifier)
  | emptyNamespace
  /-- A factory named like a member that every container has. -/
  | reservedMember (id : Identifier) (name : String)
  | sharedName (first second : Identifier) (name : String)
  /-- An alias that leads back to itself. -/
  | referenceCycle (id : Identifier)
deriving DecidableEq, Repr

/-- A text between quotes, as messages name things; nothing in it is escaped. -/
def inQuotes (s : String) : String := "\"" ++ s ++ "\""

def ConfigFault.message : ConfigFault → String
  | .emptyPattern =>
    "invalid wildcard pattern \"\": Parsing Error: Error \x7b input: \"\", code: TakeWhile1 \x7d"
  | .adjacentPlaceholders pattern =>
    "invalid wildcard pattern " ++ inQuotes pattern ++ ": adjacent placeholders"
  | .placeholderMismatch source target n m =>
    "wildcard hint " ++ inQuotes source ++ " -> " ++ inQuotes target ++ " has " ++ toString n
      ++ " source and " ++ toString m ++ " target placeholders"
  | .hintMismatch source id =>
    "wildcard hint " ++ inQuotes source ++ " does not match " ++ inQuotes id
  | .emptyNamespace => "namespace entry point has an empty prefix"
  | .reservedMember id name =>
    inQuotes id ++ " maps to the reserved container member " ++ inQuotes name
  | .sharedName first second name =>
    inQuotes first ++ " and " ++ inQuotes second ++ " both map to the factory name "
      ++ inQuotes name
  | .referenceCycle id => "reference cycle through " ++ inQuotes id

/-- Why a file could not be read or written. -/
inductive FileFault
  | missing
  | isDirectory
  /-- There is something where a directory is to be made. -/
  | occupied
  | notDirectory
  | notText
  | reported (message : String)
deriving DecidableEq, Repr

def FileFault.message : FileFault → String
  | .missing => "No such file or directory (os error 2)"
  | .isDirectory => "Is a directory (os error 21)"
  | .occupied => "File exists (os error 17)"
  | .notDirectory => "Not a directory (os error 20)"
  | .notText => "stream did not contain valid UTF-8"
  | .reported message => message

/-- Why something failed. -/
inductive Error
  /-- An identifier that no entry point covers was asked for. -/
  | unknownEntryPoint (id : Identifier)
  /-- A definition refers to an identifier that has none. -/
  | unknownDefinition (id : Identifier)
  /-- A member has neither an override nor a type. -/
  | unresolvable (cls : Identifier) (kind : MemberKind) (member : String)
  /-- Overrides name members that the class does not have. -/
  | unknownOverrides (cls : Identifier) (kind : MemberKind) (names : List String)
  | staticField (cls : Identifier) (field : String)
  /-- An identifier that depends on its consumer has no binding for this one. -/
  | unboundContext (id : Identifier) (consumer : Option Identifier)
  | introspection (id : Identifier) (fault : IntrospectionFault)
  | config (fault : ConfigFault)
  | file (path : String) (fault : FileFault)
  | json
  | yaml
  /-- The tasks of a resolution never come to an end. -/
  | unfinished
deriving DecidableEq, Repr

/-- The reason why a member of a kind is unresolvable. -/
def MemberKind.unresolvableReason : MemberKind → String
  | .parameter => "parameter has no override, no default value and no injectable type"
  | .field => "field has no override and no injectable type"

def Error.message : Error → String
  | .unknownEntryPoint id => "entry point not found: " ++ id
  | .unknownDefinition id => "definition not found: " ++ id
  | .unresolvable cls kind member =>
    "cannot inject " ++ kind.name ++ " " ++ inQuotes member ++ " of " ++ inQuotes cls ++ ": "
      ++ kind.unresolvableReason
  | .unknownOverrides cls kind names =>
    "invalid " ++ kind.name ++ " override(s) for " ++ inQuotes cls ++ ": "
      ++ ", ".intercalate names
  | .staticField cls field =>
    "field " ++ inQuotes field ++ " of " ++ inQuotes cls ++ " is static and cannot be injected"
  | .unboundContext id consumer =>
    inQuotes id ++ " is context dependent and has no binding for "
      ++ consumer.elim "direct retrieval" (fun c => "consumer " ++ inQuotes c)
      ++ " and no default"
  | .introspection id fault => "cannot introspect " ++ inQuotes id ++ ": " ++ fault.message
  | .config fault => "invalid configuration: " ++ fault.message
  | .file path fault => "I/O error at " ++ path ++ ": " ++ fault.message
  | .json => "invalid JSON document"
  | .yaml => "invalid YAML document"
  | .unfinished => "resolution does not come to an end"

/-! ### What may fail -/

variable {α β : Type}

/-- What comes after something succeeds only if that did. -/
theorem bind_eq_ok {x : Except Error α} {f : α → Except Error β} {b : β} :
    (x >>= f) = .ok b ↔ ∃ a, x = .ok a ∧ f a = .ok b := by
  cases x <;> simp [bind, Except.bind]

/-- What comes after something fails if that did, or else by itself. -/
theorem bind_eq_error {x : Except Error α} {f : α → Except Error β} {e : Error} :
    (x >>= f) = .error e ↔ x = .error e ∨ ∃ a, x = .ok a ∧ f a = .error e := by
  cases x <;> simp [bind, Except.bind]

end Injector
