import Injector.Proofs.Container.Activation
import Injector.Proofs.Graph.Image

/-!
# Proxies are exact and transparent

Which definitions of a resolved graph stand behind a proxy, and what the proxies activate first. But
for the proxies the graph is the same without them, whatever is asked of its definitions, and so are
the order of writing, what is kept and the order of dependencies.
-/

namespace Injector

/-! ### Definitions with and without proxies -/

namespace Definition

def isProxy : Definition → Bool
  | .autoloaded .. => true
  | _ => false

/-- Whether a definition may stand behind a proxy. -/
def takesProxy : Definition → Bool
  | .cls _ | .alias _ => true
  | _ => false

@[simp] lemma isProxy_core (d : Definition) : d.core.isProxy = false := by
  induction d using Definition.id.induct with
  | case5 inner _ _ ih => exact ih
  | case1 | case2 | case3 | case4 => rfl

/-- What is no proxy has none to be looked through. -/
lemma core_of_not_isProxy {d : Definition} (h : d.isProxy = false) : d.core = d := by
  cases d with
  | autoloaded => cases h
  | cls | «alias» | container | perConsumer => rfl

lemma isProxy_wrapped {always : List String} {d : Definition} (bare : d.isProxy = false) :
    (Graph.wrapped always d).isProxy = d.takesProxy := by
  cases d with
  | autoloaded => cases bare
  | cls | «alias» | container | perConsumer => rfl

@[simp] lemma scope_core (d : Definition) : d.core.scope = d.scope :=
  apply_core scope (fun _ _ _ => rfl) d

@[simp] lemma isEntryPoint_core (d : Definition) : d.core.isEntryPoint = d.isEntryPoint :=
  apply_core isEntryPoint (fun _ _ _ => rfl) d

@[simp] lemma namedDependencies_core (d : Definition) :
    d.core.namedDependencies = d.namedDependencies :=
  apply_core namedDependencies (fun _ _ _ => rfl) d

@[simp] lemma dependencies_core (d : Definition) : d.core.dependencies = d.dependencies := by
  rw [dependencies, dependencies, namedDependencies_core]

/-- Definitions that are the same in all that is asked of them. -/
structure LooksLike (d d' : Definition) : Prop where
  id : d.id = d'.id
  scope : d.scope = d'.scope
  isEntryPoint : d.isEntryPoint = d'.isEntryPoint
  isFileBased : d.isFileBased = d'.isFileBased
  dependencies : d.dependencies = d'.dependencies
  referrers : d.referrers? = d'.referrers?
  sourceUnit : d.sourceUnit? = d'.sourceUnit?

/-- All but the placement is the same without a proxy, whatever the proxy says. -/
lemma looksLike_core {d : Definition} (placed : d.core.isFileBased = d.isFileBased) :
    d.core.LooksLike d := by
  constructor
  case isFileBased => exact placed
  all_goals simp

end Definition

/-! ### Graphs with and without proxies -/

/-- Without its proxies a graph is the same in all that is asked of it. -/
structure Graph.IsTransparent (g : Graph) : Prop where
  /-- No proxy is left. -/
  bare : ∀ k d, g.unwrapped.find? k = some d → d.isProxy = false
  entryPoints : g.unwrapped.entryPoints = g.entryPoints
  defined : ∀ k, g.unwrapped.contains k = g.contains k
  definitions : ∀ k d d', g.find? k = some d → g.unwrapped.find? k = some d' → d'.LooksLike d
  emission : g.unwrapped.emissionOrder.map Definition.id = g.emissionOrder.map Definition.id
  cached : ∀ k, g.unwrapped.isCached k = g.isCached k
  needs : ∀ k, g.unwrapped.dependencyOrder k = g.dependencyOrder k

namespace Graph

variable (g : Graph)

@[simp] lemma find?_unwrapped (k : Identifier) :
    g.unwrapped.find? k = (g.find? k).map Definition.core :=
  g.find?_mapDefinitions Definition.core k

/-- It is enough that each proxy says of the placement what the definition behind it says. -/
lemma isTransparent_of_placed
    (placed : ∀ k d, g.find? k = some d → d.core.isFileBased = d.isFileBased) :
    g.IsTransparent where
  bare k d hk := by
    rw [find?_unwrapped] at hk
    obtain ⟨d, -, rfl⟩ := Option.map_eq_some_iff.1 hk
    exact d.isProxy_core
  entryPoints := rfl
  defined k := congrFun (g.contains_mapDefinitions Definition.core) k
  definitions k d d' hk hk' := by
    rw [find?_unwrapped, hk] at hk'
    cases hk'
    exact Definition.looksLike_core (placed k d hk)
  emission := by
    have order : g.unwrapped.emissionOrder = g.emissionOrder.map Definition.core :=
      g.emissionOrder_mapDefinitions Definition.core
    rw [order, List.map_map]
    exact List.map_congr_left fun d _ => d.id_core
  cached := g.isCached_mapDefinitions Definition.keepsInstance_core
  needs := g.dependencyOrder_mapDefinitions Definition.dependencies_core

end Graph

/-! ### Resolved graphs -/

/-- Some texts without repetition, in the order in which they are first met in a list. -/
structure ListsInOrder (all met : List String) : Prop where
  nodup : met.Nodup
  complete : ∀ x, x ∈ met ↔ x ∈ all
  ordered : met.Pairwise fun x y => all.idxOf x < all.idxOf y

lemma listsInOrder_firstOccurrences (l : List String) : ListsInOrder l (firstOccurrences l) where
  nodup := nodup_firstOccurrences l
  complete _ := mem_firstOccurrences
  ordered := pairwise_firstOccurrences l

/-- The proxies of a graph are those that the entry points ask for. -/
structure Wiring.HasItsProxies (w : Wiring) (g : Graph) : Prop where
  /-- A proxy stands before a class or an alias that some entry point covers which gets proxies, unless
  it is excluded. -/
  exact : ∀ k d, g.find? k = some d →
    (d.isProxy ↔ (∃ e ∈ w.entries.entries, k ∈ e.ids ∧ (w.config.autoload.enabled ∨ e.autoload)) ∧
      k ∉ w.config.autoload.excluded ∧ d.core.takesProxy)
  /-- No proxy stands before another one. -/
  flat : ∀ k inner fileBased always,
    g.find? k = some (.autoloaded inner fileBased always) → inner.isProxy = false
  /-- All proxies first activate the known sources of the same classes. -/
  always : ∃ units, w.config.autoload.always.mapM w.provider.sourceUnit = .ok units ∧
    ∀ k inner fileBased always, g.find? k = some (.autoloaded inner fileBased always) →
      ListsInOrder units.reduceOption always

namespace Wiring

variable {w : Wiring} {roots : List Identifier} {g : Graph}

/-- An identifier gets a proxy if some entry point that covers it does, however many others do not. -/
lemma mem_wrappedEntries {k : Identifier} :
    k ∈ w.wrappedEntries ↔
      (∃ e ∈ w.entries.entries, k ∈ e.ids ∧ (w.config.autoload.enabled ∨ e.autoload)) ∧
        k ∉ w.config.autoload.excluded := by
  simp only [wrappedEntries, List.mem_flatMap, List.mem_filter, Config.wraps, Bool.and_eq_true,
    Bool.or_eq_true, decide_eq_true_eq]
  constructor
  · rintro ⟨e, he, hk, asked, kept⟩
    exact ⟨⟨e, he, hk, asked⟩, kept⟩
  · rintro ⟨⟨e, he, hk, asked⟩, kept⟩
    exact ⟨e, he, hk, asked, kept⟩

namespace Yields

variable (yields : w.Yields roots g) {always : List String} {k : Identifier} {d : Definition}
include yields

/-- A run makes no proxies. -/
lemma isProxy_eq_false (hk : g.find? k = some d) : d.isProxy = false := by
  cases d with
  | autoloaded => exact absurd hk yields.original.ne_autoloaded
  | cls | «alias» | container | perConsumer => rfl

lemma isProxy_iff (hk : (w.wrapEntries always g).find? k = some d) :
    d.isProxy ↔ k ∈ w.wrappedEntries ∧ d.core.takesProxy := by
  rw [find?_wrapEntries] at hk
  obtain ⟨d₀, hd, rfl⟩ := Option.map_eq_some_iff.1 hk
  have bare := yields.isProxy_eq_false hd
  rw [core_front, Definition.core_of_not_isProxy bare, front]
  split
  · next asked => simp [Definition.isProxy_wrapped bare, asked]
  · next unasked => simp [bare, unasked]

/-- A proxy goes where the definition behind it goes. -/
lemma isFileBased_core (hk : (w.wrapEntries always g).find? k = some d) :
    d.core.isFileBased = d.isFileBased := by
  cases d with
  | autoloaded inner fileBased units =>
    obtain ⟨hd, placed, -⟩ := yields.cases_autoloaded hk
    have bare : inner.core = inner :=
      Definition.core_of_not_isProxy (yields.isProxy_eq_false hd)
    rw [Definition.core, bare, placed]
    rfl
  | cls | «alias» | container | perConsumer => rfl

/-- The proxies that are put before some definitions are those that are asked for. -/
lemma hasItsProxies (activated : w.alwaysActivated = .ok always) :
    w.HasItsProxies (w.wrapEntries always g) := by
  constructor
  case exact =>
    intro k d hk
    rw [yields.isProxy_iff hk, mem_wrappedEntries, and_assoc]
  case flat =>
    intro k inner fileBased units hk
    exact yields.isProxy_eq_false (yields.cases_autoloaded hk).1
  case always =>
    obtain ⟨units, known, h⟩ := bind_eq_ok.1 activated
    refine ⟨units, known, fun k inner fileBased always' hk => ?_⟩
    obtain ⟨-, -, rfl⟩ := yields.cases_autoloaded hk
    cases h
    exact listsInOrder_firstOccurrences _

end Yields

/-- A resolved graph has the proxies that the entry points ask for, and is the same without them in
all that is asked of it. -/
theorem hasItsProxies_of_resolveFor {entry : Option Identifier} (h : w.resolveFor entry = .ok g) :
    w.HasItsProxies g ∧ g.IsTransparent := by
  obtain ⟨g₀, always, yields, activated, rfl⟩ := resolve_eq_ok.1 (resolve_of_resolveFor h)
  constructor
  · exact yields.hasItsProxies activated
  · apply Graph.isTransparent_of_placed
    intro k d hk
    exact yields.isFileBased_core hk

/-- Two entry points cover a lamp, the second of which gets a proxy. A switch, which is exposed
without one, needs the lamp; and the shade, a name for the lamp, gets a proxy, but its base is
excluded. -/
def lampWiring : Wiring where
  config := { autoload := { always := ["Mains", "Fuse", "Meter", "Wire"], excluded := ["Base"] } }
  provider := Metadata.provider <| .ofList
    [("Switch", { source := some "switch", parameters := [{ name := "lamp", type := some "Lamp" }] }),
      ("Lamp", { source := some "lamp", parameters := [{ name := "base", type := some "Base" }] }),
      ("Base", {}), ("Mains", { source := some "mains" }), ("Fuse", {}),
      ("Meter", { source := some "meter" }), ("Wire", { source := some "mains" })]
  mode := .compile
  entries := ⟨[{ ids := ["Switch", "Lamp"], fileBased := true },
    { ids := ["Shade", "Lamp", "Base"], autoload := true }]⟩
  hints := ⟨.ofList [("Shade", .byClass "Lamp" {})], []⟩

/-- The lamp and the shade are behind proxies that activate the mains before the meter. -/
theorem hasItsProxies_lampWiring :
    ∃ g, lampWiring.resolveFor none = .ok g ∧
      g.identifiers.filter (fun k => (g.find? k).any (·.isProxy)) = ["Lamp", "Shade"] ∧
      g.identifiers.filter (fun k => (g.find? k).any (·.isFileBased)) = ["Lamp", "Switch"] ∧
      g.proxyPasses "Lamp" (fun always => decide (always = ["mains", "meter"])) ∧
      lampWiring.HasItsProxies g ∧ g.IsTransparent := by
  have resolves : lampWiring.passesWithin 60 ["Switch", "Lamp", "Shade", "Base"] (fun g =>
      decide (g.identifiers.filter (fun k => (g.find? k).any (·.isProxy)) = ["Lamp", "Shade"])
        && decide (g.identifiers.filter (fun k => (g.find? k).any (·.isFileBased)) =
          ["Lamp", "Switch"])
        && g.proxyPasses "Lamp" (fun always => decide (always = ["mains", "meter"]))) = true := by
    decide +kernel
  obtain ⟨g, hg, passes⟩ := exists_of_passesWithin resolves
  simp only [Bool.and_eq_true, decide_eq_true_eq] at passes
  obtain ⟨⟨proxies, placed⟩, activated⟩ := passes
  have h : lampWiring.resolveFor none = .ok g := hg
  obtain ⟨exact, transparent⟩ := hasItsProxies_of_resolveFor h
  exact ⟨g, h, proxies, placed, activated, exact, transparent⟩

end Wiring

end Injector
