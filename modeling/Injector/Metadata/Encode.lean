import Injector.Config.Encode
import Injector.Metadata

/-!
# Writing metadata

Metadata as a document with every member present, in declared order.
-/

namespace Injector

def Parameter.document (p : Parameter) : Document :=
  .object [("name", .text p.name), ("type", .ofText? p.type), ("optional", .bool p.isOptional),
    ("default", p.default.elim .null Literal.document)]

def Field.document (f : Field) : Document :=
  .object [("name", .text f.name), ("type", .ofText? f.type), ("static", .bool f.isStatic),
    ("inject", .bool f.isMarked)]

def TypeKind.name : TypeKind → String
  | .concrete => "struct"
  | .abstract => "trait"

def TypeInfo.document (t : TypeInfo) : Document :=
  .object [("kind", .text t.kind.name), ("source", .ofText? t.source),
    ("constructor", .list (t.parameters.map Parameter.document)),
    ("fields", .list (t.fields.map Field.document))]

def Metadata.document (m : Metadata) : Document := Table.document TypeInfo.document m

end Injector
