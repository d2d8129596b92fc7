import Injector.Config.Encode
import Injector.Container.Body
import Injector.Text.Report

/-!
# Plans

A summary of a graph, one entry for each definition in the order they are written, as a document
and as a table.
-/

namespace Injector

/-- The summary of a definition. -/
structure PlanEntry where
  id : Identifier
  kind : String
  scope : Scope
  entryPoint : Bool
  /-- Whether its instance is kept for the next time. -/
  cached : Bool
  /-- Whether its body goes to a file of its own. -/
  fileBased : Bool
  factory : String
  /-- Whether the container has a method for it. -/
  method : Bool
  /-- What has to be built for it, in ascending order. -/
  dependencies : List Identifier
  referrers : Nat
deriving DecidableEq, Repr

/-- A summary of a graph. -/
structure Plan where
  entries : List PlanEntry := []
deriving DecidableEq, Repr

def Graph.planEntry (g : Graph) (d : Definition) : PlanEntry where
  id := d.id
  kind := d.kind
  scope := d.scope
  entryPoint := d.isEntryPoint
  cached := g.isCached d.id
  fileBased := d.isFileBased
  factory := factoryName d.id
  method := hasMethod d
  dependencies := d.dependencies
  referrers := d.referrers?.elim 0 Table.size

def Graph.plan (g : Graph) : Plan := ⟨g.emissionOrder.map g.planEntry⟩

namespace Plan

def exposed (p : Plan) : List PlanEntry := p.entries.filter (·.entryPoint)

def ofKind (p : Plan) (kind : String) : List PlanEntry := p.entries.filter (·.kind = kind)

end Plan

/-! ### Written forms -/

def PlanEntry.document (e : PlanEntry) : Document :=
  .object
    [("id", .text e.id), ("kind", .text e.kind), ("scope", e.scope.document),
      ("entry_point", .bool e.entryPoint), ("cached", .bool e.cached),
      ("file_based", .bool e.fileBased), ("factory", .text e.factory),
      ("method", .bool e.method), ("dependencies", .ofTexts e.dependencies),
      ("referrers", .ofNat e.referrers)]

namespace Plan

def document (p : Plan) : Document :=
  .object [("entries", .list (p.entries.map PlanEntry.document))]

def columnTitles : List String := ["IDENTIFIER", "KIND", "SCOPE", "FLAGS", "DEPENDENCIES"]

def row (e : PlanEntry) : List String :=
  [e.id, e.kind, e.scope.name,
    Report.flagList [(e.entryPoint, "entry"), (e.cached, "cached"), (e.fileBased, "file"),
      (!e.method, "included")],
    Report.itemList e.dependencies]

/-- A plan for the container of a name, as a table with a title and totals. -/
def text (p : Plan) (container : String) : String :=
  "Container plan for: " ++ container ++ "\n" ++ Report.rule 35 ++ "\n\n"
    ++ Report.table columnTitles (p.entries.map row) ++ "\n  "
    ++ Report.counted p.entries.length "definition" "definitions" ++ ", "
    ++ Report.counted p.exposed.length "entry point" "entry points" ++ "\n"

end Plan

end Injector
