import Injector.Proofs.Container.Complete
import Injector.Proofs.Resolution.Prefix
import Injector.Proofs.Resolution.Silence
import Mathlib.Data.List.TakeWhile

/-!
# Singletons behind exposed aliases

An alias that is asked for as an entry point counts as a consumer of its own target, on all that it
goes through, if nothing else has asked for it before. If an earlier entry point depends on it, it
is defined when its own turn comes, and its reference is never counted.
-/

namespace Injector

namespace Wiring

variable {w : Wiring} {roots before after : List Identifier} {F g h : Graph} {a x : Identifier}

/-! ### When nothing is asked for on behalf of another -/

section Idle

variable (ok : w.Yields roots F) {us : List Task} (v : w.Visits roots h us)
  (idle : ∀ k consumer placed, .request k (some consumer) placed ∉ us)
include ok v idle

/-- All that is named is defined. -/
lemma Yields.contains_of_idle {k j : Identifier} {d : Definition} (hk : h.find? k = some d)
    (hj : j ∈ d.namedDependencies) : h.contains j := by
  rcases (closed_of_visits ok v).defined k d hk j hj with ⟨placed, hm⟩ | ⟨hc, -⟩
  · exact absurd hm (idle _ _ _)
  · exact hc

/-- The chain of what is defined is complete. -/
lemma Yields.mem_chain_of_idle {k : Identifier} (hk : h.contains k) (hx : x ∈ F.chain a k) :
    x ∈ h.chain a k := by
  obtain ⟨-, path⟩ := Graph.mem_chain_iff.1 hx
  have reach : h.contains x ∧ Relation.ReflTransGen (h.Forwards a) k x := by
    clear hx
    induction path with
    | refl => exact ⟨hk, .refl⟩
    | @tail y z _ step ih =>
      obtain ⟨hy, path⟩ := ih
      have step : h.Forwards a y z := ((ok.keeps v).forward?_eq hy).symm.trans step
      obtain ⟨d, hd, forward⟩ := Option.bind_eq_some_iff.1 step
      have named := (original_of_visits ok v).named_of_forward hd forward
      exact ⟨ok.contains_of_idle v idle hd named, path.tail step⟩
  exact Graph.mem_chain_iff.2 reach

end Idle

/-! ### The references of an exposed alias -/

/-- Before an entry point is asked for, nothing is counted for it unless it is a class. -/
lemma Yields.referrer?_first (first : w.Yields before h) (later : a ∉ before)
    (notClass : ∀ c, h.find? a ≠ some (.cls c)) : h.referrer? x a = none := by
  have silent : Silent (w.start before) (before.map w.rootTask) a := by
    refine ⟨.inr fun placed hm => later ?_, fun j s => not_count_mem_rootTasks j a s⟩
    obtain ⟨r, hr, eq⟩ := List.mem_map.1 hm
    cases eq
    exact hr
  have start : w.Visits before (w.start before) (before.map w.rootTask ++ []) := by
    rw [List.append_nil]
    exact .refl
  rw [first.referrer?_eq_of_silent notClass start first.visits silent, referrer?_start]

section Alias

variable {al : Alias} (ok : w.Yields roots F) (ha : F.find? a = some (.alias al))
include ok ha

/-- Once an alias is defined and nothing is left to be counted for it, its references stay. -/
lemma Yields.referrer?_eq_of_contains {us : List Task} (v : w.Visits roots g us)
    (known : g.contains a) (uncounted : ∀ j s, .count j a s ∉ us) :
    F.referrer? x a = g.referrer? x a := by
  have later : w.Leads g us F [] := leads_of_run (v.run_eq.trans ok)
  have visits : w.Visits roots g (us ++ []) := by
    rw [List.append_nil]
    exact v
  refine ok.referrer?_eq_of_silent (fun c hc => ?_) visits later ⟨.inl known, uncounted⟩
  cases ha.symm.trans hc

/-- An alias that is asked for as an entry point, and has no definition, gets one; then its target
is asked for, and then its reference is counted. -/
lemma Yields.exists_count (own : al.isContainer = false) {placed : Bool} {rest : List Task}
    (v : w.Visits roots g (.request a none placed :: rest)) (absent : g.find? a = none) :
    ∃ h, w.Visits roots h (.count al.target a al.scope.isSingleton :: .check a none :: rest) ∧
      h.contains a ∧ ∀ x, h.referrer? x a = g.referrer? x a := by
  have notClass : ∀ c, F.find? a ≠ some (.cls c) := fun c hc => by cases ha.symm.trans hc
  obtain ⟨g₁, next, step, v₁⟩ := v.exists_step ok
  have keeps := ok.keeps v₁
  have counted : ∀ x, g₁.referrer? x a = g.referrer? x a :=
    fun x => step.referrer?_eq (original_of_visits ok v) (by simp) x a
  cases step with
  | @own _ _ _ c _ _ new =>
    have hid : (Definition.cls c).id = a := new.id_eq
    have present : (g.insertIfAbsent (.cls c)).find? a = some (.cls c) := by
      rw [Graph.find?_insertIfAbsent, if_pos hid.symm, absent]
      rfl
    obtain ⟨c', hc', -⟩ := keeps.find?_cls present
    exact absurd hc' (notClass c')
  | @bind _ _ _ d _ others _ expansion =>
    have present := expansion.find?_first absent
    obtain ⟨d', hd', shape⟩ := keeps.exists_find? present
    cases ha.symm.trans hd'
    obtain ⟨al₁, rfl, same⟩ := Definition.eq_alias_of_shape_eq shape.symm
    have target : al₁.target = al.target := (congrArg Alias.target same :)
    have scope : al₁.scope = al.scope := (congrArg Alias.scope same :)
    have container : al₁.isContainer = false := (congrArg Alias.isContainer same :).trans own
    have direct : directTasks a none (.alias al₁) =
        [.count al.target a al.scope.isSingleton] := by
      simp [directTasks, Definition.forward?, Definition.aliasTarget?, container, target, scope,
        Definition.scope]
    rw [direct, List.append_assoc, List.append_assoc] at v₁
    obtain ⟨h, first, -⟩ := exists_leads_of_run_append (v₁.run_eq.trans ok)
    have outcome : w.run _ _ = some (.ok h) := first.run_eq.symm.trans (run_nil w h)
    have known := (first.keeps outcome).contains (k := a) (by simp [present])
    refine ⟨h, v₁.trans (first.append _), known, fun x => ?_⟩
    rw [ok.referrer?_eq_of_silent notClass v₁ first ⟨.inl (by simp [present]), ?_⟩, counted]
    intro j s hm
    obtain ⟨k, -, eq⟩ := List.mem_map.1 hm
    cases eq
  | discover _ present | known present | bound present => simp [absent] at present

/-- The reference of an alias that is asked for first is counted on its whole chain. -/
lemma Yields.referrer?_of_absent (own : al.isContainer = false) {placed : Bool}
    {ks : List Identifier}
    (v : w.Visits roots g (.request a none placed :: ks.map w.rootTask))
    (absent : g.find? a = none) (uncounted : g.referrer? x a = none)
    (hx : x ∈ F.chain a al.target) (tracked : F.IsTracked x) :
    F.referrer? x a = some ⟨1, al.scope.isSingleton⟩ := by
  obtain ⟨h, before, known, same⟩ := ok.exists_count ha own v absent
  have idle : ∀ k consumer placed, .request k (some consumer) placed ∉
      (.count al.target a al.scope.isSingleton :: .check a none :: ks.map w.rootTask :
        List Task) := by
    intro k consumer placed hm
    obtain ⟨r, -, hr⟩ : ∃ r ∈ ks, w.rootTask r = .request k (some consumer) placed := by
      simpa using hm
    cases hr
  have there := ok.mem_chain_of_idle before idle (ok.contains_of_count before) hx
  have after : w.Visits roots (h.recordReference a al.scope.isSingleton al.target)
      (.check a none :: ks.map w.rootTask) := before.step rfl
  rw [ok.referrer?_eq_of_contains ha after,
    Graph.referrer?_recordReference (ok.keeps before) tracked, if_pos ⟨there, rfl⟩, same, uncounted]
  · simp
  · exact (Step.count (w := w) al.target a al.scope.isSingleton).keeps.contains known
  · intro j s hm
    rcases List.mem_cons.1 hm with hm | hm
    · cases hm
    · exact not_count_mem_rootTasks j a s hm

end Alias

/-- The reference of an exposed alias is counted once on its whole chain, unless an entry point that
is declared before depends on it; then it is not counted at all. -/
theorem Yields.referrer?_alias {al : Alias} (ok : w.Yields (before ++ a :: after) F)
    (once : a ∉ before) (ha : F.find? a = some (.alias al)) (own : al.isContainer = false)
    (hx : x ∈ F.chain a al.target) (tracked : F.IsTracked x) :
    let reached := ∃ r ∈ before, Relation.ReflTransGen
      (fun j k => ∃ d, F.find? j = some d ∧ k ∈ d.namedDependencies) r a
    (¬reached → F.referrer? x a = some ⟨1, al.scope.isSingleton⟩) ∧
      (reached → F.referrer? x a = none) := by
  intro reached
  obtain ⟨h, es, first, v⟩ := ok.exists_first
  have keeps : h.Keeps F := (ok.keeps v).exposing_left
  have notClass : ∀ c, h.find? a ≠ some (.cls c) := by
    intro c hc
    obtain ⟨c', hc', -⟩ := keeps.find?_cls hc
    cases ha.symm.trans hc'
  have uncounted : h.referrer? x a = none := first.referrer?_first once notClass
  have contains_iff : h.contains a ↔ reached := by
    rw [first.contains_first_iff ok keeps, or_iff_right]
    rw [Graph.contains_eq, ok.absent_of_newborn ha (ok.original.newborn_alias ha own)]
    simp
  constructor
  · intro unreached
    have absent : h.find? a = none := by simpa using mt contains_iff.1 unreached
    exact ok.referrer?_of_absent ha own v absent uncounted hx tracked
  · intro hr
    have known : (h.exposing es).contains a := contains_iff.2 hr
    rw [ok.referrer?_eq_of_contains ha v known fun j s => not_count_mem_rootTasks j a s]
    exact uncounted

end Wiring

/-! ### Cached singletons -/

open Wiring

/-- The declared identifiers that come before one of them. -/
def EntryPoints.earlier (e : EntryPoints) (a : Identifier) : List Identifier :=
  e.identifiers.takeWhile (· ≠ a)

lemma EntryPoints.identifiers_eq {e : EntryPoints} {a : Identifier} (h : e.contains a) :
    ∃ later, e.identifiers = e.earlier a ++ a :: later ∧ a ∉ e.earlier a := by
  have split : e.identifiers = e.earlier a ++ e.identifiers.dropWhile (· ≠ a) :=
    List.takeWhile_append_dropWhile.symm
  have once : a ∉ e.earlier a := fun ha => by simpa using List.mem_takeWhile_imp ha
  cases hd : e.identifiers.dropWhile (· ≠ a) with
  | nil =>
    rw [hd, List.append_nil] at split
    exact absurd (split ▸ EntryPoints.mem_identifiers.2 h) once
  | cons k later =>
    have first := List.head?_dropWhile_not (· ≠ a) e.identifiers
    rw [hd] at first
    obtain rfl : k = a := by simpa using first
    exact ⟨later, hd ▸ split, once⟩

/-- An entry point that is declared before another one depends on it. -/
def Wiring.ReachesEarlier (w : Wiring) (g : Graph) (a : Identifier) : Prop :=
  ∃ r ∈ w.entries.earlier a, Relation.ReflTransGen g.DependsOn r a

namespace Graph

/-- A singleton class is kept if it is exposed or has a singleton among its consumers. -/
lemma isCached_iff {g : Graph} {k : Identifier} {d : Definition} {c : ClassDefinition}
    (hk : g.find? k = some d) (hc : d.core = .cls c) (hs : c.scope = .singleton) :
    g.isCached k ↔ c.entryPoint ∨ ∃ j r, g.referrer? k j = some r ∧ r.singleton := by
  have consumers : ∀ j, g.referrer? k j = c.referrers.find? j := by
    intro j
    rw [referrer?, hk, Option.bind_some, ← Definition.referrers?_core, hc]
    rfl
  have kept : g.isCached k = (c.entryPoint || c.referrers.values.any (·.singleton)) := by
    rw [isCached, hk, Option.any_some, ← Definition.keepsInstance_core, hc, keepsInstance, hs]
    rfl
  simp only [kept, consumers, Bool.or_eq_true, List.any_eq_true, Table.values, List.mem_map]
  refine or_congr_right ⟨?_, ?_⟩
  · rintro ⟨_, ⟨⟨j, r⟩, hr, rfl⟩, single⟩
    exact ⟨j, r, (c.referrers.mem_entries_iff_find? j r).1 hr, single⟩
  · rintro ⟨j, r, hr, single⟩
    exact ⟨r, ⟨(j, r), (c.referrers.mem_entries_iff_find? j r).2 hr, rfl⟩, single⟩

end Graph

variable {w : Wiring} {g : Graph}

/-- The way of a consumer to its target is a chain of what the run came to. -/
lemma Wiring.Yields.mem_chain_of_target? {roots : List Identifier}
    (yields : w.Yields roots g) {always : List String} {a j k : Identifier}
    (h : (w.wrapEntries always g).target? (some a) j = .ok (.factory k)) : k ∈ g.chain a j := by
  obtain ⟨way, d, hd, -⟩ := Graph.exists_factory_of_target? h
  refine Graph.mem_chain_iff.2 ⟨by simp [yields.find?_core hd], ?_⟩
  refine Relation.ReflTransGen.mono ?_ _ _ way
  rintro x y ⟨d', hd', hop⟩
  rw [find?_wrapEntries] at hd'
  obtain ⟨d₀, hd₀, rfl⟩ := Option.map_eq_some_iff.1 hd'
  have forward := (yields.original.hop_eq_next_iff hd₀).1 (hop_of_front hop)
  exact Option.bind_eq_some_iff.2 ⟨d₀, hd₀, forward⟩

/-- A singleton class behind an exposed singleton alias has the alias as a consumer, once, unless an
entry point that is declared before the alias depends on it; then it has not. So the class is kept
if there is no such entry point, and otherwise only if it is exposed itself or has another
singleton among its consumers. -/
theorem isCached_iff_of_alias (h : w.resolveAll = .ok g) {a : Identifier}
    (declared : w.entries.contains a) {d : Definition} {al : Alias} (ha : g.find? a = some d)
    (hal : d.core = .alias al) (own : al.isContainer = false) (single : al.scope = .singleton)
    {k : Identifier} {d' : Definition} {c : ClassDefinition}
    (target : g.target? (some a) al.target = .ok (.factory k)) (hk : g.find? k = some d')
    (hc : d'.core = .cls c) (hs : c.scope = .singleton) :
    (¬w.ReachesEarlier g a → g.referrer? k a = some ⟨1, true⟩) ∧
      (w.ReachesEarlier g a → g.referrer? k a = none) ∧
      (g.isCached k ↔ w.entries.contains k ∨ ¬w.ReachesEarlier g a ∨
        ∃ j r, j ≠ a ∧ g.referrer? k j = some r ∧ r.singleton) := by
  have h : w.resolve w.entries.identifiers = .ok g := h
  obtain ⟨g₀, always, yields, -, rfl⟩ := resolve_eq_ok.1 h
  have ha₀ : g₀.find? a = some (.alias al) := hal ▸ yields.find?_core ha
  have hk₀ : g₀.find? k = some (.cls c) := hc ▸ yields.find?_core hk
  have same : ∀ j, (w.wrapEntries always g₀).referrer? k j = g₀.referrer? k j := by
    intro j
    rw [Graph.referrer?, Graph.referrer?, hk, hk₀, Option.bind_some, Option.bind_some,
      ← Definition.referrers?_core, hc]
  obtain ⟨later, split, once⟩ := EntryPoints.identifiers_eq declared
  have tracked : g₀.IsTracked k := by simp [Graph.IsTracked, hk₀, Definition.referrers?]
  have chain := yields.mem_chain_of_target? target
  have reached : w.ReachesEarlier (w.wrapEntries always g₀) a ↔ ∃ r ∈ w.entries.earlier a,
      Relation.ReflTransGen
        (fun i j => ∃ d, g₀.find? i = some d ∧ j ∈ d.namedDependencies) r a := by
    simp only [ReachesEarlier, ← dependsOn_wrapEntries w always]
  rw [split] at yields
  obtain ⟨counted, uncounted⟩ := yields.referrer?_alias once ha₀ own chain tracked
  rw [← reached, ← same] at counted uncounted
  rw [single] at counted
  refine ⟨counted, uncounted, ?_⟩
  have exposed : c.entryPoint = w.entries.contains k := by
    rcases yields.original.cases hk₀ with ⟨-, h⟩ | ⟨-, -, _, h, -⟩ | new
    · cases h
    · cases h
    · exact new.exposed
  rw [Graph.isCached_iff hk hc hs, exposed]
  refine or_congr_right ⟨?_, ?_⟩
  · rintro ⟨j, r, hr, hr'⟩
    by_cases hj : j = a
    · left
      intro hreach
      rw [hj, uncounted hreach] at hr
      cases hr
    · exact .inr ⟨j, r, hj, hr, hr'⟩
  · rintro (unreached | ⟨j, r, -, hr, hr'⟩)
    · exact ⟨a, _, counted unreached, rfl⟩
    · exact ⟨j, r, hr, hr'⟩

/-- A request that is built anew each time has a clock, which is a system clock; both are declared,
in some order. -/
def clockWiring (order : List Identifier) : Wiring where
  config := {}
  provider := Metadata.provider <| .ofList
    [("Request", { parameters := [{ name := "clock", type := some "Clock" }] }),
      ("SystemClock", {})]
  mode := .compile
  entries := ⟨order.map fun id => { ids := [id] }⟩
  hints := ⟨.ofList [("Request", .byClass "Request" { scope := .prototype }),
    ("Clock", .byClass "SystemClock" {})], []⟩

/-- A graph has an alias for an identifier, and it passes a test. -/
def Graph.aliasPasses (g : Graph) (k : Identifier) (test : Alias → Bool) : Bool :=
  match g.find? k with
  | some (.alias a) => test a
  | _ => false

lemma Graph.exists_of_aliasPasses {k : Identifier} {test : Alias → Bool}
    (h : g.aliasPasses k test = true) : ∃ a, g.find? k = some (.alias a) ∧ test a = true := by
  simp only [aliasPasses] at h
  split at h
  · next a ha => exact ⟨a, ha, h⟩
  · cases h

/-- The clock of a graph is a singleton alias of the system clock, which is a singleton, too. -/
def Graph.hasClock (g : Graph) : Bool :=
  g.aliasPasses "Clock" (fun a => a.isContainer = false ∧ a.scope = .singleton ∧
    g.target? (some "Clock") a.target = .ok (.factory "SystemClock")) &&
  g.classPasses "SystemClock" (fun c => c.scope = .singleton)

/-- If the clock is declared first, the system clock is kept. -/
theorem isCached_clockWiring :
    ∃ g, (clockWiring ["Clock", "Request"]).resolveAll = .ok g ∧ g.hasClock ∧
      g.isCached "SystemClock" := by
  have resolves : (clockWiring ["Clock", "Request"]).passesWithin 40 ["Clock", "Request"]
      Graph.hasClock = true := by
    decide +kernel
  obtain ⟨g, hg, clock⟩ := exists_of_passesWithin resolves
  have h : (clockWiring ["Clock", "Request"]).resolveAll = .ok g := hg
  obtain ⟨passes, system⟩ := Bool.and_eq_true_iff.1 clock
  obtain ⟨a, ha, forwards⟩ := Graph.exists_of_aliasPasses passes
  obtain ⟨own, single, target⟩ := of_decide_eq_true forwards
  obtain ⟨c, hc, hs⟩ := Graph.exists_of_classPasses system
  have first : ¬(clockWiring ["Clock", "Request"]).ReachesEarlier g "Clock" := by
    rintro ⟨r, hr, -⟩
    have none : (clockWiring ["Clock", "Request"]).entries.earlier "Clock" = [] := by decide
    rw [none] at hr
    cases hr
  have cached := (isCached_iff_of_alias h (by decide) ha rfl own single target hc rfl
    (of_decide_eq_true hs)).2.2
  exact ⟨g, h, clock, cached.2 (.inr (.inl first))⟩

/-- If the request is declared first, the system clock is not kept. -/
theorem not_isCached_clockWiring :
    ∃ g, (clockWiring ["Request", "Clock"]).resolveAll = .ok g ∧ g.hasClock ∧
      ¬g.isCached "SystemClock" := by
  have resolves : (clockWiring ["Request", "Clock"]).passesWithin 40 ["Request", "Clock"]
      (fun g => g.hasClock ∧ ¬g.isCached "SystemClock") = true := by
    decide +kernel
  obtain ⟨g, hg, passes⟩ := exists_of_passesWithin resolves
  have h : (clockWiring ["Request", "Clock"]).resolveAll = .ok g := hg
  exact ⟨g, h, of_decide_eq_true passes⟩

end Injector
