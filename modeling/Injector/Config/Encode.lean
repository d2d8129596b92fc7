import Injector.Config
import Injector.Document.Basic

/-!
# Writing configurations

A configuration as a document with every member present, in declared order. Choices carry no mark:
each alternative is told by its members.
-/

namespace Injector

mutual

def Literal.document : Literal → Document
  | .null => .null
  | .bool b => .bool b
  | .integer n => .integer n.toInt
  | .float x => .float x
  | .text s => .text s
  | .list items => .list (documents items)

def Literal.documents : List Literal → List Document
  | [] => []
  | a :: as => document a :: documents as

end

def Table.document {α : Type} (f : α → Document) (t : Table α) : Document :=
  .object (t.entries.map fun e => (e.1, f e.2))

def OverrideValue.document : OverrideValue → Document
  | .reference path => .object [("reference", .text path)]
  | .value literal => literal.document

def Overrides.document (o : Overrides) : Document := Table.document OverrideValue.document o

def Scope.document (s : Scope) : Document := .text s.name

def EntryTarget.members : EntryTarget → List (String × Document)
  | .single id => [("class", .text id)]
  | .below path recursive onlyConcrete =>
    [("namespace", .text path), ("recursive", .bool recursive),
      ("only_concrete", .bool onlyConcrete)]

def EntryConfig.document (e : EntryConfig) : Document :=
  .object (e.target.members ++
    [("file_based", .bool e.fileBased), ("autoload", .bool e.autoload),
      ("parameters", e.parameters.document), ("fields", e.fields.document)])

def ClassSettings.members (s : ClassSettings) : List (String × Document) :=
  [("scope", s.scope.document), ("parameters", s.parameters.document),
    ("fields", s.fields.document)]

def ContextTable.document (t : ContextTable) : Document :=
  .object [("default", .ofText? t.default), ("consumers", Table.document .text t.consumers),
    ("scope", t.scope.document)]

def HintConfig.document : HintConfig → Document
  | .context table => .object [("context", table.document)]
  | .implementation cls settings => .object (("class", .text cls) :: settings.members)
  | .own settings => .object settings.members

def WildcardConfig.document (w : WildcardConfig) : Document :=
  .object [("source", .text w.source), ("target", .text w.target), ("scope", w.scope.document)]

def ContainerSection.document (c : ContainerSection) : Document :=
  .object [("name", .text c.name), ("interfaces", .ofTexts c.interfaces)]

def InjectionSection.document (i : InjectionSection) : Document :=
  .object [("constructor", .bool i.constructor), ("fields", .bool i.fields)]

def AutoloadSection.document (a : AutoloadSection) : Document :=
  .object [("enabled", .bool a.enabled), ("excluded", .ofTexts a.excluded),
    ("always_autoload", .ofTexts a.always)]

def FileSection.document (f : FileSection) : Document :=
  .object [("enabled", .bool f.enabled), ("directory", .text f.directory),
    ("excluded", .ofTexts f.excluded)]

def OutputSection.document (o : OutputSection) : Document :=
  .object [("container_file", .text o.containerFile)]

def Config.document (c : Config) : Document :=
  .object
    [("container", c.container.document), ("injection", c.injection.document),
      ("entry_points", .list (c.entryPoints.map EntryConfig.document)),
      ("hints", Table.document HintConfig.document c.hints),
      ("wildcard_hints", .list (c.wildcards.map WildcardConfig.document)),
      ("autoload", c.autoload.document), ("file_based", c.files.document),
      ("output", c.output.document)]

end Injector
