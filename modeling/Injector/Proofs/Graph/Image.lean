import Injector.Graph.Order
import Mathlib.Data.List.Basic

/-!
# Graphs after a change of all definitions

What is read off a graph stays the same when all its definitions are changed in a way that does not
show in what is read: the identifiers that are defined, what is kept, the order of writing and the
order of dependencies.
-/

namespace Injector.Graph

/-- A graph with all its definitions changed. -/
def mapDefinitions (f : Definition → Definition) (g : Graph) : Graph :=
  { g with definitions := g.definitions.mapValues fun _ d => f d }

section Shape

variable (f : Definition → Definition) (g : Graph)

@[simp] lemma find?_mapDefinitions (k : Identifier) :
    (g.mapDefinitions f).find? k = (g.find? k).map f :=
  Table.find?_mapValues ..

@[simp] lemma entryPoints_mapDefinitions : (g.mapDefinitions f).entryPoints = g.entryPoints := rfl

lemma contains_mapDefinitions : (g.mapDefinitions f).contains = g.contains := by
  funext k
  simp

@[simp] lemma identifiers_mapDefinitions : (g.mapDefinitions f).identifiers = g.identifiers := by
  simp [identifiers, mapDefinitions, Table.keys, Table.mapValues]

@[simp] lemma size_mapDefinitions : (g.mapDefinitions f).size = g.size := List.length_map ..

@[simp] lemma emissionIds_mapDefinitions : (g.mapDefinitions f).emissionIds = g.emissionIds := by
  rw [emissionIds, emissionIds, identifiers_mapDefinitions, contains_mapDefinitions]
  rfl

/-- Definitions are written in the same order. -/
lemma emissionOrder_mapDefinitions :
    (g.mapDefinitions f).emissionOrder = g.emissionOrder.map f := by
  rw [emissionOrder, emissionOrder, emissionIds_mapDefinitions, List.map_filterMap]
  exact List.filterMap_congr fun k _ => find?_mapDefinitions f g k

end Shape

variable {f : Definition → Definition} (g : Graph)

/-- What does not show in whether instances are kept. -/
lemma isCached_mapDefinitions (same : ∀ d, keepsInstance (f d) = keepsInstance d)
    (k : Identifier) : (g.mapDefinitions f).isCached k = g.isCached k := by
  rw [isCached, isCached, find?_mapDefinitions, Option.any_map]
  exact congrArg (Option.any · _) (funext same)

section Order

/-! ### What does not show in dependencies -/

variable (same : ∀ d, (f d).dependencies = d.dependencies)
include same

lemma edges_mapDefinitions (k : Identifier) : (g.mapDefinitions f).edges k = g.edges k := by
  rw [edges, edges, contains_mapDefinitions, find?_mapDefinitions]
  cases g.find? k with
  | none => rfl
  | some d => exact congrArg (List.filter g.contains) (same d)

/-- A survey finds the same. -/
lemma survey_mapDefinitions (k : Identifier) :
    (g.mapDefinitions f).survey k = g.survey k := by
  have edges : (g.mapDefinitions f).edges = g.edges := funext (edges_mapDefinitions g same)
  have rounds : Survey.next (g.mapDefinitions f) = Survey.next g := by
    funext s
    rw [Survey.next, Survey.next, edges]
  rw [survey, survey, rounds, size_mapDefinitions]

lemma dependencyOrder_mapDefinitions (k : Identifier) :
    (g.mapDefinitions f).dependencyOrder k = g.dependencyOrder k := by
  rw [dependencyOrder, dependencyOrder, contains_mapDefinitions, survey_mapDefinitions g same]

end Order

end Injector.Graph
