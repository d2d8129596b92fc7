import Injector.Proofs.Graph.Walk

/-!
# Dependency orders

The order of an identifier lists exactly what the identifier needs, each once, and the identifier
last. Of two that depend on one another in one direction only, the one that is needed comes first.
-/

namespace Injector

namespace Graph

variable {g : Graph} {id : Identifier}

/-- Nothing is listed twice. -/
theorem nodup_dependencyOrder (g : Graph) (id : Identifier) : (g.dependencyOrder id).Nodup := by
  by_cases defined : g.contains id
  · rw [dependencyOrder_of_contains defined]
    exact List.nodup_reverse.2 (visited_start defined).sound.nodup
  · rw [dependencyOrder, if_neg defined]
    exact List.nodup_nil

/-- What is listed is what the identifier needs. -/
theorem mem_dependencyOrder (defined : g.contains id) {k : Identifier} :
    k ∈ g.dependencyOrder id ↔ g.Reaches id k := by
  have visited := visited_start defined
  have done : ∀ k ∈ (g.visit g.size {} id).met, k ∈ (g.visit g.size {} id).done := fun k hk =>
    (visited.extend.finished k hk).resolve_left List.not_mem_nil
  rw [dependencyOrder_of_contains defined, List.mem_reverse]
  constructor
  · intro hk
    exact ((visited.extend.new k hk).resolve_left List.not_mem_nil).2
  · intro reach
    induction reach with
    | refl => exact done id visited.mem
    | tail _ edge ih => exact done _ (visited.sound.order _ ih _ edge).1

/-- What is needed comes first, unless it needs what it is needed for. -/
theorem sublist_dependencyOrder {a b : Identifier} (ha : a ∈ g.dependencyOrder id)
    (edge : g.Edge a b) (oneWay : ¬g.Reaches b a) : [b, a].Sublist (g.dependencyOrder id) := by
  by_cases defined : g.contains id
  · rw [dependencyOrder_of_contains defined] at ha ⊢
    have before := ((visited_start defined).sound.order a (List.mem_reverse.1 ha) b edge).2
    exact (before.resolve_right oneWay).reverse
  · rw [dependencyOrder, if_neg defined] at ha
    cases ha

/-- The identifier itself is the last one that is done. -/
lemma getLast?_dependencyOrder (defined : g.contains id) :
    (g.dependencyOrder id).getLast? = some id := by
  have listed : id ∈ g.identifiers := (g.definitions.mem_keys_iff id).2 defined
  have pos : 0 < g.size := by
    rw [← g.length_identifiers]
    exact List.length_pos_of_mem listed
  rw [dependencyOrder_of_contains defined, List.getLast?_reverse]
  cases depth : g.size with
  | zero => omega
  | succ depth =>
    rw [visit, if_neg List.not_mem_nil]
    rfl

/-- The definition of an identifier depends on another one, which is defined as well. -/
def Requires (g : Graph) (a b : Identifier) : Prop :=
  (∃ d, g.find? a = some d ∧ b ∈ d.dependencies) ∧ g.contains b

/-- A list of all that an identifier requires, directly or not, in an order in which it can be
built but for cycles. -/
structure OrdersRequired (g : Graph) (id : Identifier) (ks : List Identifier) : Prop where
  nodup : ks.Nodup
  mem_iff : ∀ k, k ∈ ks ↔ Relation.ReflTransGen g.Requires id k
  last : ks.getLast? = some id
  /-- What is depended on comes first, unless it requires the other in turn. -/
  ordered : ∀ a ∈ ks, ∀ b ∈ ks, (∃ d, g.find? a = some d ∧ b ∈ d.dependencies) →
    ¬Relation.ReflTransGen g.Requires b a → [b, a].Sublist ks

/-- The dependency order of an identifier lists what it requires, in order up to cycles. -/
theorem ordersRequired_dependencyOrder {g : Graph} {id : Identifier} (defined : g.contains id) :
    g.OrdersRequired id (g.dependencyOrder id) := by
  have same : g.Requires = g.Edge := by
    funext a b
    exact propext edge_iff.symm
  have reaches : Relation.ReflTransGen g.Requires = g.Reaches := by rw [same]
  constructor
  · exact nodup_dependencyOrder g id
  · intro k
    rw [reaches]
    exact mem_dependencyOrder defined
  · exact getLast?_dependencyOrder defined
  · intro a ha b hb depends oneWay
    have present : g.contains b := ((mem_dependencyOrder defined).1 hb).contains defined
    rw [reaches] at oneWay
    exact sublist_dependencyOrder ha (edge_iff.2 ⟨depends, present⟩) oneWay

/-- A press and its plates need each other, the ink needs itself, and nobody knows the paper. -/
def pressGraph : Graph :=
  let named (id : Identifier) (members : List Identifier) : Definition :=
    .cls { id, fields := members.map fun k => ⟨k, .dependency k⟩ }
  [named "Press" ["Plate", "Roll", "Paper"], named "Plate" ["Press", "Ink"],
    named "Roll" ["Ink"], named "Ink" ["Ink"], named "Shop" ["Press"]].foldl insertIfAbsent {}

/-- The ink comes before the plate and the roll, and the press last, though the plate needs it. -/
theorem ordersRequired_pressGraph : pressGraph.contains "Press" ∧
    pressGraph.OrdersRequired "Press" (pressGraph.dependencyOrder "Press") ∧
    pressGraph.dependencyOrder "Press" = ["Ink", "Plate", "Roll", "Press"] := by
  have defined : pressGraph.contains "Press" := by decide
  exact ⟨defined, ordersRequired_dependencyOrder defined, by decide⟩

end Graph

end Injector
