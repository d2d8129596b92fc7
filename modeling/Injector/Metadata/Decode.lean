import Injector.Config.Decode
import Injector.Metadata

/-!
# Reading metadata

Metadata from a node, and so from a text in either format.
-/

namespace Injector

open Node

def Parameter.ofNode? (n : Node) : Option Parameter :=
  match n.section? ["name", "type", "optional", "default"] with
  | some [name, type, isOptional, default] => do
    return {
      name := ← required? text? name
      type := ← withDefault? none (optional? text?) type
      isOptional := ← withDefault? false bool? isOptional
      default := ← withDefault? none (optional? Literal.ofNode?) default }
  | _ => none

def Field.ofNode? (n : Node) : Option Field :=
  match n.section? ["name", "type", "static", "inject"] with
  | some [name, type, isStatic, isMarked] => do
    return {
      name := ← required? text? name
      type := ← withDefault? none (optional? text?) type
      isStatic := ← withDefault? false bool? isStatic
      isMarked := ← withDefault? false bool? isMarked }
  | _ => none

def TypeKind.ofNode? (n : Node) : Option TypeKind :=
  n.word? [("struct", .concrete), ("trait", .abstract)]

def TypeInfo.ofNode? (n : Node) : Option TypeInfo :=
  match n.section? ["kind", "source", "constructor", "fields"] with
  | some [kind, source, parameters, fields] => do
    return {
      kind := ← withDefault? .concrete TypeKind.ofNode? kind
      source := ← withDefault? none (optional? text?) source
      parameters := ← withDefault? [] (list? Parameter.ofNode?) parameters
      fields := ← withDefault? [] (list? Field.ofNode?) fields }
  | _ => none

namespace Metadata

def ofNode? (n : Node) : Option Metadata := n.table? TypeInfo.ofNode?

def ofJson (s : String) : Except Error Metadata :=
  ((Json.read? s).bind ofNode?).elim (.error .json) .ok

def ofYaml (s : String) : Except Error Metadata :=
  ((Yaml.read? s).bind ofNode?).elim (.error .yaml) .ok

end Metadata

end Injector
