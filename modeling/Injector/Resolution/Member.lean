import Injector.Definition
import Injector.Metadata

/-!
# Members of a class

Where the value of each parameter and each field comes from: an override, the default of an
optional parameter, or the instance of its type. A member for which there is nothing is an error,
and so are an override that names no member and a static field that is to be injected.
-/

namespace Injector

/-- Where the value of a parameter comes from, if there is anything. -/
def Parameter.source? (overrides : Overrides) (p : Parameter) : Option Source :=
  match overrides.find? p.name with
  | some value => some value.source
  | none =>
    if p.isOptional then some (.value (p.default.getD .null)) else p.type.map .dependency

/-- Where the value of a field comes from, if there is anything. -/
def Field.source? (overrides : Overrides) (f : Field) : Option Source :=
  match overrides.find? f.name with
  | some value => some value.source
  | none => f.type.map .dependency

def Field.isInjected (overrides : Overrides) (f : Field) : Bool :=
  f.isMarked || overrides.contains f.name

/-- The arguments of parameters, the first of which has a given position. -/
def arguments (overrides : Overrides) (position : Nat) : List Parameter → List Argument
  | [] => []
  | p :: ps =>
    ((p.source? overrides).map fun source => (⟨position, p.name, source⟩ : Argument)).toList
      ++ arguments overrides (position + 1) ps

def injectedFields (overrides : Overrides) (fs : List Field) : List FieldValue :=
  (fs.filter (Field.isInjected overrides)).filterMap fun f =>
    (f.source? overrides).map (⟨f.name, ·⟩)

/-- The names of overrides that no member has, in ascending order. -/
def unknownNames (overrides : Overrides) (names : List String) : List String :=
  overrides.keys.filter (· ∉ names)

end Injector
