import Injector.Definition
import Injector.EntryPoint
import Injector.Hint

/-!
# Definitions from hints

What a hint puts in the place of an identifier: a definition of the identifier itself, followed by
those of the classes that it names and that no hint of their own takes elsewhere. A class keeps
the overrides of its own hint; those of the hint that names it win over them, and those of an
entry point that covers it win over both.
-/

namespace Injector

/-- The overrides of both settings, those of the second where both have one; the scope is that of
the second. -/
def ClassSettings.override (s t : ClassSettings) : ClassSettings :=
  ⟨t.scope, s.parameters.override t.parameters, s.fields.override t.fields⟩

/-- The definition of a class that is built with some settings. -/
def classDefinition (entries : EntryPoints) (cls : Identifier) (s : ClassSettings)
    (placed : Bool) : ClassDefinition :=
  let entry := entries.find? cls
  let c : ClassDefinition :=
    { id := cls, scope := s.scope, entryPoint := entry.isSome, fileBased := placed,
      overriddenParameters := s.parameters, overriddenFields := s.fields }
  match entry with
  | none => c
  | some e => c.withOverrides e.parameters e.fields

/-- The definition of a class that a hint names, unless a hint of its own takes it elsewhere. No
pattern applies to it: one that turns each name into a longer one would match again and again. -/
def implementation? (entries : EntryPoints) (hints : HintTable) (cls : Identifier)
    (s : ClassSettings) (placed : Bool) : Option (Identifier × Definition) :=
  match hints.exact.find? cls with
  | none => some (cls, .cls (classDefinition entries cls s placed))
  | some (.byClass own t) =>
    if own = cls then some (cls, .cls (classDefinition entries cls (t.override s) placed))
    else none
  | some (.perConsumer _) => none

/-- The definitions for an identifier that is built by a class. -/
def classBinding (entries : EntryPoints) (hints : HintTable) (id cls : Identifier)
    (s : ClassSettings) (placed : Bool) : List (Identifier × Definition) :=
  if cls = id then [(id, .cls (classDefinition entries id s placed))]
  else
    let a : Alias :=
      { id, target := cls, scope := s.scope, entryPoint := entries.contains id,
        fileBased := placed }
    (id, .alias a) :: (implementation? entries hints cls s placed).toList

def branch (id : Identifier) (scope : Scope) (placed : Bool) (cls : Identifier) : Definition :=
  .alias { id, target := cls, scope, fileBased := placed }

/-- The classes that a context names, in ascending order. -/
def ContextTable.classes (t : ContextTable) : List Identifier :=
  sortedDistinct (t.consumers.values ++ t.default.toList)

/-- The definitions for an identifier whose class depends on the consumer. -/
def contextBinding (entries : EntryPoints) (hints : HintTable) (id : Identifier)
    (t : ContextTable) (placed : Bool) : List (Identifier × Definition) :=
  let definition := Definition.perConsumer id t.scope (entries.contains id)
    (t.default.map (branch id t.scope placed))
    (t.consumers.mapValues fun _ => branch id t.scope placed).entries
  (id, definition) :: t.classes.filterMap fun cls =>
    implementation? entries hints cls { scope := t.scope } placed

/-- The definitions that a hint puts in the place of an identifier; its own comes first. -/
def Hint.definitions (entries : EntryPoints) (hints : HintTable) (id : Identifier)
    (placed : Bool) : Hint → Except Error (List (Identifier × Definition))
  | .exact (.byClass cls s) => .ok (classBinding entries hints id cls s placed)
  | .exact (.perConsumer t) => .ok (contextBinding entries hints id t placed)
  | .wildcard w =>
    match w.targetFor? id with
    | some cls => .ok (classBinding entries hints id cls { scope := w.scope } placed)
    | none => .error (.config (.hintMismatch w.source.text id))

end Injector
