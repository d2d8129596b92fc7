import Injector.Document.Yaml.Plain
import Injector.Document.Yaml.Token

/-!
# Tags of YAML

What a scalar stands for under its tag. Four common tags ask for a kind of scalar, every other
common tag for a text. A tag of the document's own is a mark: a scalar with a mark has no value by
itself, but it may name a choice.
-/

namespace Injector.Yaml

def commonTag (kind : String) : String := "tag:yaml.org,2002:" ++ kind

/-- The name of a mark, if a tag is one. -/
def mark? (tag : String) : Option String :=
  match tag.toList with
  | ['!'] => some "!"
  | '!' :: name => some (String.ofList name)
  | _ => none

def taggedScalar (tag s : String) : Scalar :=
  if tag = commonTag "bool" then (bool? s).elim .unreadable .bool
  else if tag = commonTag "int" then ((whole? s.toList).bind wholeScalar?).getD .unreadable
  else if tag = commonTag "float" then (float? s.toList).elim .unreadable .float
  else if tag = commonTag "null" then if isNull s then .null else .unreadable
  else if (mark? tag).isSome then .unreadable
  else .text s

def scalarAtom (tag : Option String) (style : Style) (s : String) : Atom :=
  let isPlain := style = .plain
  let scalar := match tag with
    | some t => taggedScalar t s
    | none => if isPlain then plainScalar s else .text s
  { scalar
    text := some s
    truth :=
      if isPlain || (style = .literal && tag = some (commonTag "bool")) then bool? s else none
    word := match tag.bind mark? with
      | some name => if isPlain && (s.isEmpty || isNull s) then some name else none
      | none => some s
    place := match scalar with
      | .integer n => if n < 0 || s.toList.head? = some '-' then none else some n.toNat
      | _ => none
    isGiven :=
      if !isPlain then some true
      else if tag = some (commonTag "null") then if isNull s then some false else none
      else if tag.isSome then some true
      else some !(s.isEmpty || isNull s)
    isBlank := isPlain && s.isEmpty }

end Injector.Yaml
