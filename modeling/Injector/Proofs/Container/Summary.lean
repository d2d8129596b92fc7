import Injector.Plan
import Injector.Proofs.Container.Links

/-!
# Plans and containers

A plan says of each definition whether it has a method, whether its instance is kept, whether it is
exposed and whether its body goes to a file. The container decides all this again while it is
written; the two agree, so the names in a container can be read off the plan.
-/

namespace Injector

/-! ### What a plan announces -/

namespace PlanEntry

/-- The names of the methods that an entry announces. -/
def methods (e : PlanEntry) : List String :=
  if e.kind = "autoloaded" then [e.factory ++ innerSuffix, e.factory]
  else if e.method then [e.factory]
  else []

/-- The names of the files that an entry announces. -/
def files (e : PlanEntry) : List String :=
  if e.fileBased then
    (if e.kind = "class" ∨ e.kind = "autoloaded" ∨ e.method then [e.factory] else [])
      ++ if e.kind = "autoloaded" then [e.factory ++ proxySuffix] else []
  else []

end PlanEntry

/-- A plan lists each definition of a graph once, and the names in a container of the graph, with its
files, are those that the plan announces. -/
structure Plan.Announces (p : Plan) (g : Graph) (config : Config) (c : Container)
    (files : Artifacts) : Prop where
  ids : (p.entries.map (·.id)).Nodup
  listed : ∀ k, k ∈ p.entries.map (·.id) ↔ g.contains k
  /-- The kept instances, in order. -/
  caches : c.caches.map (·.name) = (p.entries.filter (·.cached)).map (·.factory)
  /-- The methods, in order. -/
  methods : c.factories.map (·.name) = p.entries.flatMap PlanEntry.methods
  /-- The table of what is exposed, in order. -/
  rows : c.entryRows = p.exposed.map fun e => (e.id, e.factory)
  /-- The files, by their paths. -/
  files : ∀ path, path ∈ files.placed.keys ↔
    ∃ e ∈ p.entries, ∃ name ∈ e.files, path = placedPath config.directory name

/-! ### What a definition gives rise to -/

namespace Graph

lemma methods_planEntry (g : Graph) (d : Definition) :
    (g.planEntry d).methods = d.methodNames := by
  have plain : ∀ d : Definition, d.kind ≠ "autoloaded" →
      (g.planEntry d).methods = if hasMethod d then [factoryName d.id] else [] :=
    fun d h => if_neg h
  cases d with
  | autoloaded => rfl
  | cls c => exact plain (.cls c) (by simp [Definition.kind])
  | «alias» a => exact plain (.alias a) (by simp [Definition.kind])
  | container id => exact plain (.container id) (by simp [Definition.kind])
  | perConsumer i s e t bs => exact plain (.perConsumer i s e t bs) (by simp [Definition.kind])

/-- The file of a proxy is announced together with that of the body behind it. -/
lemma files_planEntry (g : Graph) {d : Definition}
    (together : ∀ inner fileBased always, d = .autoloaded inner fileBased always →
      inner.isFileBased = fileBased) : (g.planEntry d).files = d.fileNames := by
  cases d with
  | cls c =>
    simp [PlanEntry.files, planEntry, Definition.kind, Definition.fileNames,
      Definition.isWritten]
  | «alias» a =>
    cases hp : a.fileBased <;> simp [PlanEntry.files, planEntry, Definition.kind, hasMethod,
      Definition.fileNames, Definition.isFileBased, Definition.isWritten, hp]
  | container | perConsumer =>
    simp [PlanEntry.files, planEntry, Definition.isFileBased, Definition.fileNames]
  | autoloaded inner fileBased always =>
    have same := together inner fileBased always rfl
    rw [Definition.fileNames, same]
    cases fileBased <;> simp [PlanEntry.files, planEntry, Definition.kind, Definition.isFileBased,
      Definition.id]

end Graph

section Container

variable {g : Graph} {config : Config} {c : Container} (built : g.container config = .ok c)
  (keyed : ∀ k d, g.find? k = some d → d.id = k)

include keyed in
lemma mem_ids_plan (k : Identifier) : k ∈ g.plan.entries.map (·.id) ↔ g.contains k := by
  have ids : g.plan.entries.map (·.id) = g.emissionOrder.map (·.id) := by
    simp [Graph.plan, Graph.planEntry, Function.comp_def]
  rw [ids, List.mem_map, Graph.contains_eq, Option.isSome_iff_exists]
  constructor
  · rintro ⟨d, hd, rfl⟩
    obtain ⟨j, hj⟩ := Graph.mem_emissionOrder.1 hd
    rw [keyed j d hj]
    exact ⟨d, hj⟩
  · rintro ⟨d, hk⟩
    exact ⟨d, Graph.mem_emissionOrder.2 ⟨k, hk⟩, keyed k d hk⟩

include built in
/-- The paths of the files are those of the definitions that have one. -/
lemma mem_keys_placed (path : String) : path ∈ (c.artifacts config).placed.keys ↔
    ∃ d ∈ g.emissionOrder, ∃ name ∈ d.fileNames, path = placedPath config.directory name := by
  have names : ∀ name, name ∈ c.files.map (·.name) ↔
      ∃ d ∈ g.emissionOrder, name ∈ d.fileNames := by
    intro name
    rw [map_name_files built, List.mem_flatMap]
  rw [Container.mem_keys_artifacts]
  constructor
  · rintro ⟨p, hp, rfl⟩
    obtain ⟨d, hd, hn⟩ := (names p.name).1 (List.mem_map_of_mem hp)
    exact ⟨d, hd, p.name, hn, rfl⟩
  · rintro ⟨d, hd, name, hn, rfl⟩
    obtain ⟨p, hp, rfl⟩ := List.mem_map.1 ((names name).2 ⟨d, hd, hn⟩)
    exact ⟨p, hp, rfl⟩

include built keyed in
/-- A plan announces what is in a container, if proxies go to files together with what is behind
them. -/
lemma announces_of_container (nodup : g.entryPoints.Nodup)
    (together : ∀ k inner fileBased always,
      g.find? k = some (.autoloaded inner fileBased always) → inner.isFileBased = fileBased) :
    g.plan.Announces g config c (c.artifacts config) where
  ids := by
    rw [Graph.plan, List.map_map]
    exact List.pairwise_map.2 (Graph.pairwise_emissionOrder keyed nodup)
  listed := mem_ids_plan keyed
  caches := by
    rw [(exists_emissions built).2.1, Graph.caches, Graph.plan, List.filter_map, List.map_map,
      List.map_map]
    rfl
  methods := by
    rw [map_name_factories built, Graph.plan, List.flatMap_map]
    simp only [Graph.methods_planEntry]
  rows := by
    rw [(exists_of_container built).1, Graph.entryRows, Plan.exposed, Graph.plan, List.filter_map,
      List.map_map]
    rfl
  files path := by
    have announced : ∀ d ∈ g.emissionOrder, (g.planEntry d).files = d.fileNames := by
      intro d hd
      obtain ⟨k, hk⟩ := Graph.mem_emissionOrder.1 hd
      apply g.files_planEntry
      rintro inner fileBased always rfl
      exact together k inner fileBased always hk
    rw [mem_keys_placed built, Graph.plan]
    constructor
    · rintro ⟨d, hd, name, hn, rfl⟩
      rw [← announced d hd] at hn
      exact ⟨g.planEntry d, List.mem_map_of_mem hd, name, hn, rfl⟩
    · rintro ⟨e, he, name, hn, rfl⟩
      obtain ⟨d, hd, rfl⟩ := List.mem_map.1 he
      rw [announced d hd] at hn
      exact ⟨d, hd, name, hn, rfl⟩

end Container

/-! ### Resolved graphs -/

open Wiring

variable {w : Wiring} {g : Graph}

/-- A plan is an exact summary of the compiled container, for which the files are written. -/
theorem announces_of_compile {config : Config} {entry : Option Identifier} {files : Artifacts}
    (h : w.resolveFor entry = .ok g) (compiles : g.compile config = .ok files) :
    ∃ c, g.container config = .ok c ∧ files = c.artifacts config ∧ c.IsWritten config files ∧
      g.plan.Announces g config c files := by
  obtain ⟨c, built, rfl⟩ := Graph.exists_container_of_compile compiles
  obtain ⟨g₀, always, yields, rfl⟩ := exists_of_resolveFor h
  have keyed := yields.keyed always
  have nodup := yields.nodup_entryPoints always
  refine ⟨c, built, rfl, isWritten_of_container built keyed nodup, ?_⟩
  apply announces_of_container built keyed nodup
  intro k inner fileBased units hk
  exact (yields.cases_autoloaded hk).2.1

/-- The service behind its proxy has two methods and two files, and the disk that it needs has a
file only. -/
theorem announces_placedWiring :
    ∃ g files c, placedWiring.resolveFor none = .ok g ∧
      g.compile placedWiring.config = .ok files ∧ g.container placedWiring.config = .ok c ∧
      g.plan.entries.flatMap PlanEntry.methods = ["Service__autoloaded", "Service"] ∧
      g.plan.entries.flatMap PlanEntry.files = ["Service", "Service__proxy", "Disk"] ∧
      c.IsWritten placedWiring.config files ∧ g.plan.Announces g placedWiring.config c files := by
  have resolves : placedWiring.passesWithin 40 ["Service"] (fun g =>
      g.containerPasses placedWiring.config (fun _ => true) &&
        decide (g.plan.entries.flatMap PlanEntry.methods = ["Service__autoloaded", "Service"] ∧
          g.plan.entries.flatMap PlanEntry.files = ["Service", "Service__proxy", "Disk"])) =
      true := by
    decide +kernel
  obtain ⟨g, hg, passes⟩ := exists_of_passesWithin resolves
  obtain ⟨builds, announced⟩ := Bool.and_eq_true_iff.1 passes
  obtain ⟨c, hc, -⟩ := Graph.exists_of_containerPasses builds
  obtain ⟨methods, files⟩ := of_decide_eq_true announced
  have h : placedWiring.resolveFor none = .ok g := hg
  have compiles := Graph.compile_of_container hc
  obtain ⟨c', hc', -, written, announces⟩ := announces_of_compile h compiles
  cases hc.symm.trans hc'
  exact ⟨g, _, c, h, compiles, hc, methods, files, written, announces⟩

end Injector
