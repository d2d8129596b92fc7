import Injector.Config
import Injector.Metadata

/-!
# Entry points

The identifiers that a container exposes. A declared entry point covers one identifier, or those
that a provider knows below a path. Where several cover an identifier, the first one counts.
-/

namespace Injector

/-- A declared entry point with the identifiers that it covers. -/
structure EntryPoint where
  /-- The covered identifiers, in order. -/
  ids : List Identifier
  /-- Whether what is reached from it goes to files of its own. -/
  fileBased : Bool := false
  /-- Whether the identifiers get a proxy that activates their sources. -/
  autoload : Bool := false
  parameters : Overrides := .empty
  fields : Overrides := .empty
deriving DecidableEq, Repr

/-! ### Identifiers below a path -/

/-- A path read from its end, without the separators that it begins with. -/
def dropSeparators : List Char → List Char
  | ':' :: ':' :: rest => dropSeparators rest
  | cs => cs

def trimSeparators (path : String) : String :=
  String.ofList (dropSeparators path.toList.reverse).reverse

/-- Whether an identifier lies below a path: it goes on after the path and a separator, and unless
the search is recursive, by one segment only. -/
def isBelow (path : String) (recursive : Bool) (id : Identifier) : Bool :=
  match afterChars? (path ++ pathSeparator).toList id.toList with
  | some rest => !rest.isEmpty && (recursive || !hasSeparator rest)
  | none => false

def EntryTarget.expand (p : Provider) : EntryTarget → Except Error (List Identifier)
  | .single id => .ok [id]
  | .below path recursive onlyConcrete =>
    let path := trimSeparators path
    if path.isEmpty then .error (.config .emptyNamespace)
    else .ok <| sortedDistinct <| p.identifiers.filter fun id =>
      isBelow path recursive id && (!onlyConcrete || p.isConcrete id)

def EntryConfig.expand (p : Provider) (e : EntryConfig) : Except Error EntryPoint := do
  let ids ← e.target.expand p
  return ⟨ids, e.fileBased, e.autoload, e.parameters, e.fields⟩

/-- Whether what is reached from an entry point goes to files of its own, if all else does or
not. -/
def EntryPoint.isFileBased (e : EntryPoint) (always : Bool) : Bool := e.fileBased || always

/-! ### Lists of entry points -/

/-- The declared entry points, in order. -/
structure EntryPoints where
  entries : List EntryPoint := []
deriving DecidableEq, Repr

namespace EntryPoints

def ofConfigs (p : Provider) (configs : List EntryConfig) : Except Error EntryPoints := do
  return ⟨← configs.mapM (EntryConfig.expand p)⟩

/-- The covered identifiers, in order, each once. -/
def identifiers (e : EntryPoints) : List Identifier :=
  firstOccurrences (e.entries.flatMap (·.ids))

def find? (e : EntryPoints) (id : Identifier) : Option EntryPoint :=
  e.entries.find? fun entry => id ∈ entry.ids

def contains (e : EntryPoints) (id : Identifier) : Bool := (e.find? id).isSome

theorem mem_identifiers {e : EntryPoints} {id : Identifier} :
    id ∈ e.identifiers ↔ e.contains id = true := by
  simp [identifiers, contains, find?]

end EntryPoints

end Injector
