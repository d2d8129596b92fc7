import Injector.Config.Encode
import Injector.Definition

/-!
# Writing definitions

A definition as a document: the kind first, then the members in declared order.
-/

namespace Injector

/-- The document of a source, marked with its kind. -/
def Source.document : Source → Document
  | .dependency id => .tagged "dependency" (.text id)
  | .value literal => .tagged "value" literal.document
  | .reference path => .tagged "reference" (.text path)

def Argument.document (a : Argument) : Document :=
  .object [("position", .ofNat a.position), ("name", .text a.name),
    ("source", a.source.document)]

def FieldValue.document (f : FieldValue) : Document :=
  .object [("name", .text f.name), ("source", f.source.document)]

def Referrer.document (r : Referrer) : Document :=
  .object [("count", .ofNat r.count), ("singleton", .bool r.singleton)]

def Referrers.document (r : Referrers) : Document := Table.document Referrer.document r

def Progress.name : Progress → String
  | .pending => "pending"
  | .inProgress => "in_progress"
  | .resolved => "resolved"

def ClassDefinition.document (c : ClassDefinition) : Document :=
  .object
    [("kind", .text "class"), ("id", .text c.id), ("scope", c.scope.document),
      ("entry_point", .bool c.entryPoint), ("file_based", .bool c.fileBased),
      ("arguments", .list (c.arguments.map Argument.document)),
      ("fields", .list (c.fields.map FieldValue.document)),
      ("overridden_parameters", c.overriddenParameters.document),
      ("overridden_fields", c.overriddenFields.document), ("referrers", c.referrers.document),
      ("state", .text c.progress.name), ("source_unit", .ofText? c.sourceUnit)]

def Alias.document (a : Alias) : Document :=
  .object
    [("kind", .text "reference"), ("id", .text a.id), ("target", .text a.target),
      ("scope", a.scope.document), ("entry_point", .bool a.entryPoint),
      ("file_based", .bool a.fileBased), ("container_reference", .bool a.isContainer),
      ("referrers", a.referrers.document)]

namespace Definition

mutual

def document : Definition → Document
  | .cls c => c.document
  | .alias a => a.document
  | .container id => .object [("kind", .text "self_reference"), ("id", .text id)]
  | .perConsumer id scope entryPoint default branches =>
    .object
      [("kind", .text "context_dependent"), ("id", .text id), ("scope", scope.document),
        ("entry_point", .bool entryPoint), ("default", defaultDocument default),
        ("branches", .object (branchDocuments branches))]
  | .autoloaded inner fileBased always =>
    .object
      [("kind", .text "autoloaded"), ("inner", inner.document), ("file_based", .bool fileBased),
        ("always_activated", .ofTexts always)]

/-- The document of a default branch, if there is one. -/
def defaultDocument : Option Definition → Document
  | none => .null
  | some d => d.document

def branchDocuments : List (Identifier × Definition) → List (String × Document)
  | [] => []
  | (k, d) :: rest => (k, d.document) :: branchDocuments rest

end

end Definition

end Injector
