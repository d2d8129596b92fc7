import Injector.Proofs.Container.Complete

/-!
# Which branch a consumer gets

Resolution checks that an identifier with branches has one for whatever asks for it: a class, an alias
or another identifier with branches. A body follows all of them as the class that it builds, so only
the first of these checks speaks of the consumer that the body asks as. Compilation fails for want of
a branch only behind an alias or a branch.
-/

namespace Injector

open Wiring

variable {w : Wiring} {roots : List Identifier} {g : Graph}

lemma checkBranch_wrapEntries (w : Wiring) (always : List String) (g : Graph) (k : Identifier)
    (consumer : Option Identifier) :
    checkBranch (w.wrapEntries always g) k consumer = checkBranch g k consumer := by
  simp only [checkBranch, find?_wrapEntries]
  cases g.find? k with
  | none => rfl
  | some d =>
    rw [Option.map_some, front]
    by_cases hk : k ∈ w.wrappedEntries
    · rw [if_pos hk]
      cases d <;> rfl
    · rw [if_neg hk]

/-- What a written body asks for first has a branch for it. -/
lemma Wiring.Yields.checkBranch_of_lookup (yields : w.Yields w.entries.identifiers g)
    {k : Identifier} {d : Definition} (hk : g.find? k = some d) {always : List String}
    (written : (w.front always k d).isWritten) {q : Option Identifier × Identifier}
    (hq : q ∈ d.lookups) : checkBranch g q.2 q.1 = .ok () := by
  have o := yields.original
  have hid : d.id = k := o.id_eq hk
  cases d with
  | cls c =>
    obtain ⟨j, hj, rfl⟩ := List.mem_map.1 hq
    rw [show c.id = k from hid]
    exact (yields.settled hk hj).2
  | «alias» a =>
    simp only [Definition.lookups] at hq
    split at hq
    · cases hq
    · next ha =>
      obtain rfl := List.mem_singleton.1 hq
      rw [show a.id = k from hid]
      exact (yields.settled hk (by simp [Definition.namedDependencies, ha])).2
  | container => cases hq
  | perConsumer id scope entryPoint default branches =>
    obtain rfl := List.mem_singleton.1 hq
    have exposed : entryPoint = true := by
      rw [front] at written
      split at written <;> exact written
    have declared : w.entries.contains k = true :=
      (o.newborn_perConsumer hk).exposed.symm.trans exposed
    rw [show id = k from hid]
    exact (yields.settled_root (EntryPoints.mem_identifiers.2 declared)).2
  | autoloaded => exact absurd hk o.ne_autoloaded

/-- Where a way goes on there is a branch for the identifier that it comes from. -/
lemma Wiring.Yields.checkBranch_of_passes (yields : w.Yields roots g) {always : List String}
    {consumer : Option Identifier} {a b : Identifier}
    (h : (w.wrapEntries always g).Passes consumer a b) : checkBranch g b (some a) = .ok () := by
  obtain ⟨d, hd, hop⟩ := h
  rw [find?_wrapEntries] at hd
  obtain ⟨d₀, hd₀, rfl⟩ := Option.map_eq_some_iff.1 hd
  have o := yields.original
  exact (yields.settled hd₀ (o.named_of_hop hd₀ (hop_of_front hop))).2

/-- A way that ends for want of a branch ends where there is none for the consumer. -/
lemma Graph.Fails.checkBranch {consumer c : Option Identifier} {k id : Identifier}
    (h : g.Fails consumer k (.unboundContext id c)) :
    id = k ∧ c = consumer ∧ Wiring.checkBranch g id c = .error (.unboundContext id c) := by
  generalize he : Error.unboundContext id c = e at h
  cases h with
  | undefined => cases he
  | @unbound d _ present hop =>
    cases d with
    | perConsumer id' scope entryPoint default branches =>
      simp only [Definition.hop] at hop
      split at hop
      · cases hop
      · next none =>
        cases hop
        cases he
        exact ⟨rfl, rfl, by simp [Wiring.checkBranch, present, none]⟩
    | cls | «alias» | container | autoloaded => cases hop
  | repeated => cases he

/-- Where a way goes on or ends well there is a branch. -/
lemma checkBranch_of_hop {k : Identifier} {d : Definition} {consumer : Option Identifier} {hop : Hop}
    (hk : g.find? k = some d) (h : d.hop consumer k = .ok hop) :
    checkBranch g k consumer = .ok () := by
  simp only [checkBranch]
  rw [hk]
  cases d with
  | perConsumer id scope entryPoint default branches =>
    simp only [Definition.hop] at h
    split at h
    · next hb => simp only [hb]
    · cases h
  | cls | «alias» | container | autoloaded => rfl

/-- What the written bodies of a resolved graph ask for has a branch for them, and what an alias or
a branch leads to has one for the identifier that leads there. Compilation fails for want of a
branch only where a body comes, through at least one of these, to an identifier that has none for
the consumer that the body asks as; and if compilation succeeds, there is no such identifier. -/
theorem branches_of_resolveAll (h : w.resolveAll = .ok g) :
    (∀ k d, g.find? k = some d → d.isWritten → ∀ q ∈ d.lookups,
      checkBranch g q.2 q.1 = .ok ()) ∧
    (∀ consumer a b, g.Passes consumer a b → checkBranch g b (some a) = .ok ()) ∧
    (∀ config id consumer, g.compile config = .error (.unboundContext id consumer) →
      ∃ k d j a, g.find? k = some d ∧ d.isWritten ∧ (consumer, j) ∈ d.lookups ∧
        Relation.ReflTransGen (g.Passes consumer) j a ∧ g.Passes consumer a id ∧
        checkBranch g id consumer = .error (.unboundContext id consumer)) ∧
    ∀ config files, g.compile config = .ok files →
      ∀ k d, g.find? k = some d → d.isWritten → ∀ q ∈ d.lookups,
        ∀ b, Relation.ReflTransGen (g.Passes q.1) q.2 b → checkBranch g b q.1 = .ok () := by
  have h : w.resolveFor none = .ok g := h
  obtain ⟨g₀, always, yields, rfl⟩ := exists_of_resolveFor h
  have direct : ∀ k d, (w.wrapEntries always g₀).find? k = some d → d.isWritten →
      ∀ q ∈ d.lookups, checkBranch (w.wrapEntries always g₀) q.2 q.1 = .ok () := by
    intro k d hk written q hq
    rw [find?_wrapEntries] at hk
    obtain ⟨d₀, hd, rfl⟩ := Option.map_eq_some_iff.1 hk
    rw [lookups_front] at hq
    rw [checkBranch_wrapEntries]
    exact yields.checkBranch_of_lookup hd written hq
  refine ⟨direct, ?_, ?_, ?_⟩
  · intro consumer a b hab
    rw [checkBranch_wrapEntries]
    exact yields.checkBranch_of_passes hab
  · intro config id consumer he
    rcases Graph.exists_of_compile he with ⟨_, he⟩ | ⟨k, d, hk, written, q, hq, he⟩
    · cases he
    obtain ⟨asker, j⟩ := q
    obtain ⟨b, way, fails⟩ := Graph.exists_of_target? he
    obtain ⟨rfl, rfl, unbound⟩ := fails.checkBranch
    -- at the very beginning of a way there is a branch, so the failure is further on
    rcases Relation.ReflTransGen.cases_tail way with rfl | ⟨a, way, last⟩
    · cases (direct k d hk written _ hq).symm.trans unbound
    · exact ⟨k, d, j, a, hk, written, hq, way, last, unbound⟩
  · intro config files ok k d hk written q hq b way
    obtain ⟨t, ht⟩ := Graph.target?_of_compile ok hk written hq
    obtain ⟨d', hop, hd', hhop⟩ := Graph.hop_of_targetWithin ht way
    exact checkBranch_of_hop hd' hhop

/-- A port that is a cable, whose only branch is for the port, and an application that has a port. -/
def cableWiring : Wiring where
  config := {}
  provider := Metadata.provider <| .ofList
    [("App", { parameters := [{ name := "port", type := some "Port" }] }), ("Wire", {})]
  mode := .compile
  entries := ⟨[{ ids := ["App"] }]⟩
  hints :=
    { exact := .ofList
        [("Port", .byClass "Cable" {}),
          ("Cable", .perConsumer { consumers := .ofList [("Port", "Wire")] })] }

theorem branches_cableWiring :
    ∃ g, cableWiring.resolveAll = .ok g ∧
      ∀ consumer a b, g.Passes consumer a b → checkBranch g b (some a) = .ok () := by
  have resolves : cableWiring.passesWithin 40 ["App"] (fun _ => true) = true := by
    decide +kernel
  obtain ⟨g, hg, -⟩ := exists_of_passesWithin resolves
  have h : cableWiring.resolveAll = .ok g := hg
  exact ⟨g, h, (branches_of_resolveAll h).2.1⟩

/-- The application asks for its port, which leads to the cable, which has no branch for it. -/
theorem unboundContext_cableWiring :
    ∃ g, cableWiring.resolveAll = .ok g ∧
      g.compile cableWiring.config = .error (.unboundContext "Cable" (some "App")) := by
  have resolves : cableWiring.passesWithin 40 ["App"] (fun g =>
      g.compile cableWiring.config = .error (.unboundContext "Cable" (some "App"))) = true := by
    decide +kernel
  obtain ⟨g, hg, fails⟩ := exists_of_passesWithin resolves
  have h : cableWiring.resolveAll = .ok g := hg
  exact ⟨g, h, of_decide_eq_true fails⟩

end Injector
