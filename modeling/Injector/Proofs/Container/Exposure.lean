import Injector.Proofs.Container.Lookup
import Injector.Proofs.Resolution.Outcome

/-!
# What a container exposes

The rows of a container and its public methods. Both go by the list of all declared entry points, so a
container for one of them shows the others, too, as far as it needs them; and a proxy is public even
if it stands before an interface of the container.
-/

namespace Injector

/-! ### Rows and public methods -/

/-- Whether the container has a public method for a definition. -/
def Definition.isShown : Definition → Bool
  | .autoloaded .. => true
  | d => d.isEntryPoint

/-- The names of the public ones among some methods. -/
def publicNames (fs : List Factory) : List String := (fs.filter (·.isPublic)).map (·.name)

namespace Graph

variable {g : Graph}

lemma publicNames_of_emit {d : Definition} {em : Emission} (h : g.emit d = .ok em) :
    publicNames em.factories = if d.isShown then [factoryName d.id] else [] := by
  have plain : ∀ d, (∀ inner fileBased always, d ≠ .autoloaded inner fileBased always) →
      g.emitPlain d = .ok em →
      publicNames em.factories = if d.isEntryPoint then [factoryName d.id] else [] := by
    intro d bare h
    simp only [emitPlain] at h
    split at h
    · obtain ⟨p, -, h⟩ := bind_eq_ok.1 h
      cases h
      cases d.isEntryPoint <;> simp [publicNames]
    · next hm =>
      -- without a method there is nothing public, exposed or not
      have hidden : d.isEntryPoint = false := by
        cases d with
        | cls c =>
          have hm : c.entryPoint = false ∧ c.fileBased = true := by simpa [hasMethod] using hm
          exact hm.1
        | «alias» | perConsumer => simpa [hasMethod] using hm
        | container => rfl
        | autoloaded => exact absurd rfl (bare _ _ _)
      split at h
      · obtain ⟨p, -, h⟩ := bind_eq_ok.1 h
        cases h
        simp [publicNames, hidden]
      · cases h
        simp [publicNames, hidden]
  cases d with
  | autoloaded inner fileBased always =>
    obtain ⟨p, -, h⟩ := bind_eq_ok.1 h
    cases h
    simp [publicNames, Definition.isShown, Definition.id]
  | cls | «alias» | container | perConsumer => exact plain _ (by simp) h

lemma publicNames_of_mapM {ds : List Definition} {ems : List Emission}
    (h : ds.mapM g.emit = .ok ems) :
    publicNames (ems.flatMap (·.factories)) =
      (ds.filter (·.isShown)).map fun d => factoryName d.id := by
  induction ds generalizing ems with
  | nil => cases h; rfl
  | cons d ds ih =>
    rw [List.mapM_cons] at h
    obtain ⟨em, hem, h⟩ := bind_eq_ok.1 h
    obtain ⟨rest, hrest, h⟩ := bind_eq_ok.1 h
    cases h
    have head := publicNames_of_emit hem
    have tail := ih hrest
    simp only [publicNames] at head tail ⊢
    rw [List.flatMap_cons, List.filter_append, List.map_append, head, tail]
    cases hd : d.isShown <;> simp [hd]

/-- Some of the definitions in the order they are written, by their identifiers. -/
lemma map_filter_emissionOrder {α : Type} (keyed : ∀ k d, g.find? k = some d → d.id = k)
    (p : Definition → Bool) (f : Identifier → α) :
    (g.emissionOrder.filter p).map (fun d => f d.id) =
      (g.emissionIds.filter fun k => (g.find? k).any p).map f := by
  simp only [emissionOrder]
  induction g.emissionIds with
  | nil => rfl
  | cons k ks ih =>
    cases hd : g.find? k with
    | none => simp [hd, ih]
    | some d =>
      cases hp : p d <;> simp [hd, hp, ih, keyed k d hd]

/-- A graph that was asked for one entry point writes that one first. -/
lemma emissionIds_eq {id : Identifier} (only : g.entryPoints = [id]) (hc : g.contains id) :
    g.emissionIds = id :: g.identifiers.filter (· ≠ id) := by
  simp [emissionIds, only, show (g.find? id).isSome = true from hc]

/-- One of the identifiers that are written stands alone if it is the only one to be picked. -/
lemma map_filter_emissionIds_eq_iff {α : Type} {id : Identifier} (only : g.entryPoints = [id])
    (hc : g.contains id) {q : Identifier → Bool} (hq : q id = true) (f : Identifier → α) :
    (g.emissionIds.filter q).map f = [f id] ↔ ∀ k, g.contains k → q k = true → k = id := by
  rw [emissionIds_eq only hc, List.filter_cons_of_pos hq, List.map_cons]
  constructor
  · intro h k hk hqk
    have none : (g.identifiers.filter (· ≠ id)).filter q = [] :=
      List.map_eq_nil_iff.1 (List.cons.inj h).2
    by_contra hne
    have hmem : k ∈ g.identifiers := (g.definitions.mem_keys_iff k).2 hk
    have : k ∈ (g.identifiers.filter (· ≠ id)).filter q :=
      List.mem_filter.2 ⟨List.mem_filter.2 ⟨hmem, by simpa using hne⟩, hqk⟩
    rw [none] at this
    cases this
  · intro h
    have none : (g.identifiers.filter (· ≠ id)).filter q = [] := by
      apply List.eq_nil_iff_forall_not_mem.2
      intro k hk
      obtain ⟨hk, hqk⟩ := List.mem_filter.1 hk
      obtain ⟨hmem, hne⟩ := List.mem_filter.1 hk
      exact absurd (h k ((g.definitions.mem_keys_iff k).1 hmem) hqk) (by simpa using hne)
    rw [none, List.map_nil]

end Graph

/-- The rows and the public methods of a container are those of the exposed identifiers. -/
lemma exists_of_container {g : Graph} {config : Config} {c : Container}
    (h : g.container config = .ok c) :
    c.entryRows = g.entryRows ∧
      publicNames c.factories =
        (g.emissionOrder.filter (·.isShown)).map fun d => factoryName d.id := by
  obtain ⟨_, -, h⟩ := bind_eq_ok.1 h
  obtain ⟨ems, hems, h⟩ := bind_eq_ok.1 h
  cases h
  exact ⟨rfl, Graph.publicNames_of_mapM hems⟩

/-- What is compiled are the files of a container. -/
lemma Graph.exists_container_of_compile {g : Graph} {config : Config} {files : Artifacts}
    (h : g.compile config = .ok files) :
    ∃ c, g.container config = .ok c ∧ files = c.artifacts config := by
  obtain ⟨c, built⟩ := exists_of_map_eq_ok h
  rw [compile, built] at h
  exact ⟨c, built, (Except.ok.inj h).symm⟩

lemma Graph.compile_of_container {g : Graph} {config : Config} {c : Container}
    (built : g.container config = .ok c) : g.compile config = .ok (c.artifacts config) := by
  rw [compile, built]
  rfl

/-! ### Containers for one entry point -/

open Wiring

variable {w : Wiring} {roots : List Identifier} {g : Graph}

lemma Wiring.compileOne_of_container {id : Identifier} {c : Container}
    (hg : w.resolveOne id = .ok g) (hc : g.container w.config = .ok c) :
    w.compileOne id = .ok (c.artifacts w.config) := by
  rw [compileOne, hg]
  exact Graph.compile_of_container hc

lemma Wiring.contains_of_mem_wrappedEntries {k : Identifier} (h : k ∈ w.wrappedEntries) :
    w.entries.contains k := by
  obtain ⟨e, he, hk⟩ := List.mem_flatMap.1 h
  have hk : k ∈ e.ids := (List.mem_filter.1 hk).1
  simp only [EntryPoints.contains, EntryPoints.find?, List.find?_isSome]
  exact ⟨e, he, by simpa using hk⟩

/-- An identifier has a public method if it is exposed, or is an interface with a proxy. -/
lemma Wiring.Yields.isShown_iff (yields : w.Yields roots g) {k : Identifier} {d : Definition}
    (hk : g.find? k = some d) (always : List String) :
    (w.front always k d).isShown ↔ w.entries.contains k ∧ k ≠ w.config.container.name ∧
      (k ∈ w.config.container.interfaces → k ∈ w.wrappedEntries) := by
  have exposed := yields.isEntryPoint_iff hk
  have o := yields.original
  by_cases hw : k ∈ w.wrappedEntries
  · have declared := contains_of_mem_wrappedEntries hw
    rw [front, if_pos hw]
    rcases o.cases hk with ⟨rfl, rfl⟩ | ⟨hn, hi, a, rfl, -⟩ | new
    · simp [Graph.wrapped, Definition.isShown, Definition.isEntryPoint]
    · simp [Graph.wrapped, Definition.isShown, declared, hn, hw]
    · have entryPoint : d.isEntryPoint = true := by
        rw [← Definition.isEntryPoint_shape, new.exposed, declared]
      have shown : (Graph.wrapped always d).isShown = true := by
        cases d with
        | cls | «alias» | autoloaded => rfl
        | container | perConsumer => exact entryPoint
      simp [shown, declared, (exposed.1 entryPoint).2.1, hw]
  · have bare : d.isShown = d.isEntryPoint := by
      cases d with
      | autoloaded => exact absurd hk o.ne_autoloaded
      | cls | «alias» | container | perConsumer => rfl
    rw [front, if_neg hw, bare, exposed]
    simp [hw]

lemma Wiring.contains_wrapEntries (w : Wiring) (always : List String) (g : Graph)
    (k : Identifier) : (w.wrapEntries always g).contains k = g.contains k := by
  simp [find?_wrapEntries]

lemma Wiring.Yields.any_isEntryPoint_iff (yields : w.Yields roots g) (always : List String)
    (k : Identifier) :
    ((w.wrapEntries always g).find? k).any Definition.isEntryPoint = true ↔
      g.contains k ∧ w.entries.contains k ∧ k ≠ w.config.container.name ∧
        k ∉ w.config.container.interfaces := by
  rw [find?_wrapEntries, Graph.contains_eq]
  cases hk : g.find? k with
  | none => simp
  | some d => simpa using yields.isEntryPoint_iff hk

lemma Wiring.Yields.any_isShown_iff (yields : w.Yields roots g) (always : List String)
    (k : Identifier) :
    ((w.wrapEntries always g).find? k).any Definition.isShown = true ↔
      g.contains k ∧ w.entries.contains k ∧ k ≠ w.config.container.name ∧
        (k ∈ w.config.container.interfaces → k ∈ w.wrappedEntries) := by
  rw [find?_wrapEntries, Graph.contains_eq]
  cases hk : g.find? k with
  | none => simp
  | some d => simpa using yields.isShown_iff hk always

/-- The identifiers that are picked for a list of one entry point, if that is picked itself. -/
lemma Wiring.Yields.map_filter_eq_iff {α : Type} {id : Identifier} (yields : w.Yields [id] g)
    {always : List String} {p : Definition → Bool}
    (picked : ((w.wrapEntries always g).find? id).any p = true) (f : Identifier → α) :
    ((w.wrapEntries always g).emissionOrder.filter p).map (fun d => f d.id) = [f id] ↔
      ∀ k, ((w.wrapEntries always g).find? k).any p = true → k = id := by
  have only : (w.wrapEntries always g).entryPoints = [id] := by
    rw [entryPoints_wrapEntries, yields.entryPoints]
    rfl
  have hc : (w.wrapEntries always g).contains id := by
    rw [contains_wrapEntries]
    exact (yields.settled_root List.mem_cons_self).1
  rw [Graph.map_filter_emissionOrder (yields.keyed always),
    Graph.map_filter_emissionIds_eq_iff only hc picked]
  refine forall_congr' fun k => ⟨fun h hp => ?_, fun h _ => h⟩
  obtain ⟨d, hd, -⟩ := (Option.any_eq_true _ _).1 hp
  exact h (by simp [hd]) hp

/-- A container for one entry point shows nothing else exactly if no other declared identifier is
needed: its table has that one row unless another one is exposed, and its public methods are that
one unless another one is exposed or an interface of the container has a proxy. -/
theorem shown_of_compileOne {id : Identifier} {files : Artifacts}
    (h : w.compileOne id = .ok files) (notContainer : id ≠ w.config.container.name)
    (notInterface : id ∉ w.config.container.interfaces) :
    ∃ g c, w.resolveOne id = .ok g ∧ g.container w.config = .ok c ∧
      files = c.artifacts w.config ∧
      (c.entryRows = [(id, factoryName id)] ↔
        ∀ k, g.contains k → w.entries.contains k → k ≠ w.config.container.name →
          k ∉ w.config.container.interfaces → k = id) ∧
      (publicNames c.factories = [factoryName id] ↔
        ∀ k, g.contains k → w.entries.contains k → k ≠ w.config.container.name →
          (k ∈ w.config.container.interfaces → k ∈ w.wrappedEntries) → k = id) := by
  obtain ⟨g, hg, h⟩ := bind_eq_ok.1 h
  obtain ⟨c, hc⟩ := exists_of_map_eq_ok h
  have files_eq : files = c.artifacts w.config := by
    rw [Graph.compile, hc] at h
    exact (Except.ok.inj h).symm
  refine ⟨g, c, hg, hc, files_eq, ?_⟩
  obtain ⟨rows, names⟩ := exists_of_container hc
  have declared : w.entries.contains id := by
    by_contra hd
    simp [resolveOne, hd] at hg
  have asked : w.resolveFor (some id) = .ok g := hg
  obtain ⟨g₀, always, yields, rfl⟩ := exists_of_resolveFor asked
  have present : g₀.contains id := (yields.settled_root List.mem_cons_self).1
  constructor
  · have picked := (yields.any_isEntryPoint_iff always id).2
      ⟨present, declared, notContainer, notInterface⟩
    rw [rows, Graph.entryRows, yields.map_filter_eq_iff picked fun k => (k, factoryName k)]
    simp only [yields.any_isEntryPoint_iff, contains_wrapEntries, and_imp]
  · have picked := (yields.any_isShown_iff always id).2
      ⟨present, declared, notContainer, fun hi => absurd hi notInterface⟩
    rw [names, yields.map_filter_eq_iff picked factoryName]
    simp only [yields.any_isShown_iff, contains_wrapEntries, and_imp]

/-- The container of a graph can be built, and it passes a test. -/
def Graph.containerPasses (g : Graph) (config : Config) (test : Container → Bool) : Bool :=
  match g.container config with
  | .ok c => test c
  | .error _ => false

lemma Graph.exists_of_containerPasses {config : Config} {test : Container → Bool}
    (h : g.containerPasses config test = true) :
    ∃ c, g.container config = .ok c ∧ test c = true := by
  simp only [containerPasses] at h
  split at h
  · next c hc => exact ⟨c, hc, h⟩
  · cases h

/-- The container of the service shows the service alone. -/
theorem shown_storeWiring :
    ∃ files g c, storeWiring.compileOne "Service" = .ok files ∧
      storeWiring.resolveOne "Service" = .ok g ∧ g.container storeWiring.config = .ok c ∧
      c.entryRows = [("Service", factoryName "Service")] ∧
      publicNames c.factories = [factoryName "Service"] := by
  have resolves : storeWiring.passesWithin 40 ["Service"]
      (·.containerPasses storeWiring.config fun _ => true) = true := by
    decide +kernel
  obtain ⟨g, hg, passes⟩ := exists_of_passesWithin resolves
  obtain ⟨c, hc, -⟩ := Graph.exists_of_containerPasses passes
  have hg : storeWiring.resolveOne "Service" = .ok g := hg
  have compiles := compileOne_of_container hg hc
  have only : ∀ k, storeWiring.entries.contains k → k = "Service" := by
    intro k hk
    simpa [EntryPoints.contains, EntryPoints.find?, storeWiring] using hk
  obtain ⟨g, c, hg, hc, -, rows, names⟩ :=
    shown_of_compileOne compiles (by decide) (by decide)
  exact ⟨_, g, c, compiles, hg, hc, rows.2 fun k _ hk _ _ => only k hk,
    names.2 fun k _ hk _ _ => only k hk⟩

/-- Two declared services, the first of which needs the second. -/
def pairWiring : Wiring where
  config := {}
  provider := Metadata.provider <| .ofList
    [("Front", { parameters := [{ name := "back", type := some "Back" }] }), ("Back", {})]
  mode := .compile
  entries := ⟨[{ ids := ["Front"] }, { ids := ["Back"] }]⟩
  hints := {}

/-- The container of the first service shows the second one, too. -/
theorem shown_pairWiring :
    ∃ g c, pairWiring.compileOne "Front" = .ok (c.artifacts pairWiring.config) ∧
      pairWiring.resolveOne "Front" = .ok g ∧ g.container pairWiring.config = .ok c ∧
      c.entryRows = [("Front", factoryName "Front"), ("Back", factoryName "Back")] ∧
      publicNames c.factories = [factoryName "Front", factoryName "Back"] := by
  have resolves : pairWiring.passesWithin 40 ["Front"]
      (·.containerPasses pairWiring.config fun c =>
        c.entryRows = [("Front", factoryName "Front"), ("Back", factoryName "Back")] ∧
        publicNames c.factories = [factoryName "Front", factoryName "Back"]) = true := by
    decide +kernel
  obtain ⟨g, hg, passes⟩ := exists_of_passesWithin resolves
  obtain ⟨c, hc, shown⟩ := Graph.exists_of_containerPasses passes
  have hg : pairWiring.resolveOne "Front" = .ok g := hg
  exact ⟨g, c, compileOne_of_container hg hc, hg, hc, of_decide_eq_true shown⟩

end Injector
