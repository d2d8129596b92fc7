import Injector.Proofs.Container.Lookup
import Injector.Proofs.Resolution.Outcome

/-!
# Completeness of resolved graphs

A resolved graph consists of the container, its interfaces and what the entry points need. So
whatever the bodies of its container ask for has a definition, and following aliases and branches
from there leads to identifiers that have one.
-/

namespace Injector

open Wiring

variable {w : Wiring} {entry : Option Identifier} {g : Graph}

/-! ### What bodies ask for is named -/

/-- The way from an identifier goes on to what its definition names. -/
lemma Wiring.Original.named_of_hop (o : w.Original g) {k b : Identifier} {d : Definition}
    (hk : g.find? k = some d) {consumer : Option Identifier}
    (hop : d.hop consumer k = .ok (.next b)) : b ∈ d.namedDependencies := by
  cases d with
  | «alias» a =>
    simp only [Definition.hop] at hop
    split at hop
    · cases hop
    · next ha =>
      cases hop
      simp [Definition.namedDependencies, ha]
  | perConsumer id scope entryPoint default branches =>
    have plain := (o.newborn_perConsumer hk).plain
    simp only [Definition.hop] at hop
    cases hb : Definition.branchFor? default branches consumer with
    | none => simp [hb] at hop
    | some d =>
      obtain ⟨a, rfl, ha, named⟩ := plain.exists_of_branchFor? hb
      obtain rfl : a.target = b := by simpa [hb, Definition.branchHop, ha] using hop
      exact named
  | cls | container | autoloaded => cases hop

/-- The way of a consumer goes on to what a definition forwards it to. -/
lemma Wiring.Original.hop_eq_next_iff (o : w.Original g) {k consumer b : Identifier} {d : Definition}
    (hk : g.find? k = some d) :
    d.hop (some consumer) k = .ok (.next b) ↔ d.forward? consumer = some b := by
  cases d with
  | «alias» a =>
    by_cases ha : a.isContainer <;>
      simp [Definition.hop, Definition.forward?, Definition.aliasTarget?, ha]
  | perConsumer id scope entryPoint default branches =>
    have plain := (o.newborn_perConsumer hk).plain
    cases hb : Definition.branchFor? default branches (some consumer) with
    | none => simp [Definition.hop, Definition.forward?, hb]
    | some d =>
      obtain ⟨a, rfl, ha, -⟩ := plain.exists_of_branchFor? hb
      simp [Definition.hop, Definition.forward?, Definition.branchHop, Definition.aliasTarget?, hb, ha]
  | cls | container => simp [Definition.hop, Definition.forward?, Definition.aliasTarget?]
  | autoloaded => exact absurd hk o.ne_autoloaded

lemma Wiring.Original.named_of_forward (o : w.Original g) {k consumer b : Identifier}
    {d : Definition} (hk : g.find? k = some d) (forward : d.forward? consumer = some b) :
    b ∈ d.namedDependencies :=
  o.named_of_hop hk ((o.hop_eq_next_iff hk).2 forward)

/-- What a body asks for is named, or is the identifier itself. -/
lemma Definition.named_of_mem_lookups {d : Definition} {q : Option Identifier × Identifier}
    (h : q ∈ d.lookups) : q.2 ∈ d.namedDependencies ∨ q.2 = d.id := by
  induction d using Definition.id.induct with
  | case1 c =>
    obtain ⟨j, hj, rfl⟩ := List.mem_map.1 h
    exact .inl hj
  | case2 a =>
    simp only [lookups] at h
    split at h
    · cases h
    · next ha =>
      obtain rfl := List.mem_singleton.1 h
      simp [namedDependencies, ha]
  | case3 => cases h
  | case4 id =>
    obtain rfl := List.mem_singleton.1 h
    exact .inr rfl
  | case5 inner _ _ ih => exact ih h

@[simp] lemma Wiring.lookups_front (w : Wiring) (always : List String) (k : Identifier)
    (d : Definition) : (w.front always k d).lookups = d.lookups := by
  apply apply_front
  cases d <;> rfl

/-- Where a way goes on from a definition with a proxy, it goes on without the proxy, too. -/
lemma Wiring.hop_of_front {always : List String} {k b : Identifier} {d : Definition}
    {consumer : Option Identifier} (h : (w.front always k d).hop consumer k = .ok (.next b)) :
    d.hop consumer k = .ok (.next b) := by
  simp only [front] at h
  split at h
  · cases d with
    | cls | «alias» => cases h
    | container | perConsumer | autoloaded => exact h
  · exact h

/-! ### Resolved graphs -/

/-- An identifier depends on another one. -/
def Graph.DependsOn (g : Graph) (a b : Identifier) : Prop :=
  ∃ d, g.find? a = some d ∧ b ∈ d.dependencies

/-- A graph consists of the container, its interfaces and all that some entry points depend on, and
its container can be written without missing anything. -/
structure Graph.IsClosure (g : Graph) (c : Config) (roots : List Identifier) : Prop where
  contains_iff : ∀ k, g.contains k ↔
    k = c.container.name ∨ k ∈ c.container.interfaces ∨
      ∃ r ∈ roots, Relation.ReflTransGen g.DependsOn r k
  id_eq : ∀ k d, g.find? k = some d → d.id = k
  dependencies : ∀ k d, g.find? k = some d → ∀ j ∈ d.dependencies, g.contains j
  found : ∀ config k, g.compile config ≠ .error (.unknownDefinition k) ∧
    g.compile config ≠ .error (.unknownEntryPoint k)

lemma contains_seed {c : Config} {k : Identifier} :
    (seed c).contains k ↔ k = c.container.name ∨ k ∈ c.container.interfaces := by
  rw [Graph.contains_eq, find?_seed]
  split
  · next h => simp [h]
  · next h => split <;> simp_all

lemma dependsOn_wrapEntries (w : Wiring) (always : List String) {g : Graph} {a b : Identifier} :
    (w.wrapEntries always g).DependsOn a b ↔
      ∃ d, g.find? a = some d ∧ b ∈ d.namedDependencies := by
  simp [Graph.DependsOn, find?_wrapEntries]

section Resolved

variable {always : List String} {roots : List Identifier}

lemma contains_of_dependsOn (yields : w.Yields roots g) {a b : Identifier}
    (h : (w.wrapEntries always g).DependsOn a b) : (w.wrapEntries always g).contains b := by
  obtain ⟨d, hd, hb⟩ := (dependsOn_wrapEntries w always).1 h
  simpa [find?_wrapEntries] using (yields.settled hd hb).1

/-- A way goes on to what is needed. -/
lemma dependsOn_of_passes (yields : w.Yields roots g) {consumer : Option Identifier}
    {a b : Identifier} (h : (w.wrapEntries always g).Passes consumer a b) :
    (w.wrapEntries always g).DependsOn a b := by
  obtain ⟨d, hd, hop⟩ := h
  rw [find?_wrapEntries] at hd
  obtain ⟨d₀, hd₀, rfl⟩ := Option.map_eq_some_iff.1 hd
  have named := yields.original.named_of_hop hd₀ (hop_of_front hop)
  exact (dependsOn_wrapEntries w always).2 ⟨d₀, hd₀, named⟩

/-- All that lies on the way of something that a body asks for is needed. -/
lemma dependsOn_of_way (yields : w.Yields roots g) {k j : Identifier} {d : Definition}
    (hk : (w.wrapEntries always g).find? k = some d) {q : Option Identifier × Identifier}
    (hq : q ∈ d.lookups)
    (way : Relation.ReflTransGen ((w.wrapEntries always g).Passes q.1) q.2 j) :
    Relation.ReflTransGen (w.wrapEntries always g).DependsOn k j := by
  have o := yields.original
  rw [find?_wrapEntries] at hk
  obtain ⟨d, hd, rfl⟩ := Option.map_eq_some_iff.1 hk
  induction way with
  | refl =>
    rcases Definition.named_of_mem_lookups hq with h | h
    · exact .single ((dependsOn_wrapEntries w always).2 ⟨d, hd, by simpa using h⟩)
    · rw [h, id_front, o.id_eq hd]
  | tail _ step ih => exact ih.tail (dependsOn_of_passes yields step)

/-- All that lies on the way of something that a body asks for is defined. -/
lemma contains_of_way (yields : w.Yields roots g) {k j : Identifier} {d : Definition}
    (hk : (w.wrapEntries always g).find? k = some d) {q : Option Identifier × Identifier}
    (hq : q ∈ d.lookups)
    (way : Relation.ReflTransGen ((w.wrapEntries always g).Passes q.1) q.2 j) :
    (w.wrapEntries always g).contains j := by
  rcases Relation.ReflTransGen.cases_tail (dependsOn_of_way yields hk hq way) with
    rfl | ⟨_, -, needed⟩
  · simp [hk]
  · exact contains_of_dependsOn yields needed

end Resolved

lemma Graph.Fails.of_contains {consumer : Option Identifier} {k : Identifier} {e : Error}
    (h : g.Fails consumer k e) (hk : g.contains k) :
    (∃ id c, e = .unboundContext id c) ∨ ∃ fault, e = .config fault := by
  cases h with
  | undefined absent => simp [absent] at hk
  | @unbound d _ present hop =>
    cases d with
    | perConsumer id scope entryPoint default branches =>
      simp only [Definition.hop] at hop
      split at hop
      · cases hop
      · cases hop
        exact .inl ⟨_, _, rfl⟩
    | cls | «alias» | container | autoloaded => cases hop
  | repeated => exact .inr ⟨_, rfl⟩

/-- What resolution makes of some entry points is closed and has nothing superfluous, and compiling
it never misses a definition. -/
theorem isClosure_of_resolveFor (h : w.resolveFor entry = .ok g) :
    g.IsClosure w.config (w.rootsFor entry) := by
  obtain ⟨g₀, always, yields, rfl⟩ := exists_of_resolveFor h
  constructor
  · intro k
    have hk : (w.wrapEntries always g₀).contains k ↔ g₀.contains k := by
      simp [find?_wrapEntries]
    rw [hk, yields.contains_iff, contains_seed, or_assoc]
    simp only [← dependsOn_wrapEntries w always]
  · intro k d hk
    rw [find?_wrapEntries] at hk
    obtain ⟨d, hd, rfl⟩ := Option.map_eq_some_iff.1 hk
    rw [id_front]
    exact yields.original.id_eq hd
  · intro k d hk j hj
    exact contains_of_dependsOn yields ⟨d, hk, hj⟩
  · intro config k
    have bound : ∀ e, (w.wrapEntries always g₀).compile config = .error e →
        (∃ id c, e = .unboundContext id c) ∨ ∃ fault, e = .config fault := by
      intro e he
      rcases Graph.exists_of_compile he with fault | ⟨k, d, hk, -, q, hq, he⟩
      · exact .inr fault
      · obtain ⟨j, way, fails⟩ := Graph.exists_of_target? he
        exact fails.of_contains (contains_of_way yields hk hq way)
    constructor
    · intro he
      rcases bound _ he with ⟨_, _, h⟩ | ⟨_, h⟩ <;> cases h
    · intro he
      rcases bound _ he with ⟨_, _, h⟩ | ⟨_, h⟩ <;> cases h

theorem isClosure_storeWiring :
    ∃ g, storeWiring.resolveFor none = .ok g ∧
      g.IsClosure storeWiring.config ["Service"] := by
  have resolves : storeWiring.passesWithin 40 ["Service"] (fun _ => true) = true := by
    decide +kernel
  obtain ⟨g, hg, -⟩ := exists_of_passesWithin resolves
  have h : storeWiring.resolveFor none = .ok g := hg
  exact ⟨g, h, isClosure_of_resolveFor h⟩

end Injector
