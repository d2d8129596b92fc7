import Injector.Proofs.Container.Links
import Injector.Proofs.Resolution.Permutation

/-!
# The public surface of a container

The container of all entry points shows what was declared, in declared order, and nothing else. What
is only needed has no public method, and neither has what stands behind a proxy.
-/

namespace Injector

/-- The table and the public methods of a container are those of some identifiers. -/
structure Container.Shows (c : Container) (g : Graph) (ids : List Identifier) : Prop where
  /-- The table lists the identifiers in order, each with its method. -/
  rows : c.entryRows = ids.map fun id => (id, factoryName id)
  /-- The same, line by line. -/
  table : c.entryLines =
    ["    /// Public identifiers and the factory building each, in declared order.",
      "    pub const ENTRY_POINTS: &'static [(&'static str, &'static str)] = &["]
    ++ ids.map (fun id => "        (" ++ quoted id ++ ", " ++ quoted (factoryName id) ++ "),")
    ++ ["    ];"]
  /-- The public methods are theirs, in the same order. -/
  names : publicNames c.factories = ids.map factoryName
  /-- Each method is one of a definition. -/
  owned : ∀ f ∈ c.factories, ∃ k d, g.find? k = some d ∧ f.name ∈ d.methodNames
  /-- No method of another definition is public, and no other one of a definition behind a proxy. -/
  methods : ∀ k d, g.find? k = some d → ∀ f ∈ c.factories, f.name ∈ d.methodNames →
    (f.isPublic ↔ k ∈ ids ∧ f.name = factoryName k)

lemma EntryPoints.nodup_identifiers (e : EntryPoints) : e.identifiers.Nodup :=
  nodup_firstOccurrences _

/-! ### Public methods -/

lemma Definition.mem_methodNames_of_isShown {d : Definition} (shown : d.isShown) :
    factoryName d.id ∈ d.methodNames := by
  cases d with
  | cls c =>
    have method : Graph.hasMethod (.cls c) := by
      rw [Graph.hasMethod, show c.entryPoint = true from shown, Bool.true_or]
    simp [methodNames, method, id]
  | «alias» a =>
    have method : Graph.hasMethod (.alias a) := shown
    simp [methodNames, method]
  | container => cases shown
  | perConsumer id scope entryPoint default branches =>
    have method : Graph.hasMethod (.perConsumer id scope entryPoint default branches) := shown
    simp [methodNames, method]
  | autoloaded => simp [methodNames, id]

lemma mem_publicNames {fs : List Factory} {name : String} :
    name ∈ publicNames fs ↔ ∃ f ∈ fs, f.isPublic ∧ f.name = name := by
  simp only [publicNames, List.mem_map, List.mem_filter, and_assoc]

/-- Whether a method is public can be told from its name. -/
lemma mem_publicNames_iff {fs : List Factory} (nodup : (fs.map (·.name)).Nodup) {f : Factory}
    (hf : f ∈ fs) : f.name ∈ publicNames fs ↔ f.isPublic := by
  rw [mem_publicNames]
  constructor
  · rintro ⟨f', hf', shown, same⟩
    obtain rfl := List.inj_on_of_nodup_map nodup hf' hf same
    exact shown
  · intro shown
    exact ⟨f, hf, shown, rfl⟩

namespace Graph

variable {g : Graph}

/-- If the declared identifiers are picked and no others, they are picked in declared order. -/
lemma filter_emissionIds {q : Identifier → Bool}
    (declared : ∀ k ∈ g.entryPoints, g.contains k ∧ q k)
    (only : ∀ k, q k → k ∈ g.entryPoints) : g.emissionIds.filter q = g.entryPoints := by
  have first : (g.entryPoints.filter g.contains).filter q = g.entryPoints := by
    rw [List.filter_filter, List.filter_eq_self]
    intro k hk
    obtain ⟨present, picked⟩ := declared k hk
    rw [present, picked]
    rfl
  have others : (g.identifiers.filter (· ∉ g.entryPoints)).filter q = [] := by
    rw [List.filter_eq_nil_iff]
    intro k hk picked
    exact of_decide_eq_true (List.mem_filter.1 hk).2 (only k picked)
  rw [emissionIds, List.filter_append, first, others, List.append_nil]

end Graph

/-- A container that has the rows and the public methods of some identifiers shows these, and no
method of anything else. -/
lemma Container.Shows.of_names {g : Graph} {config : Config} {c : Container}
    {ids : List Identifier} (built : g.container config = .ok c)
    (keyed : ∀ k d, g.find? k = some d → d.id = k) (nodup : g.entryPoints.Nodup)
    (shown : ∀ id ∈ ids, (g.find? id).any Definition.isShown)
    (rows : c.entryRows = ids.map fun id => (id, factoryName id))
    (names : publicNames c.factories = ids.map factoryName) : c.Shows g ids where
  rows := rows
  table := by
    rw [entryLines, rows, List.map_map]
    rfl
  names := names
  owned f hf := by
    apply exists_of_mem_methods built
    exact List.mem_map_of_mem hf
  methods k d hk f hf hn := by
    have own := (exists_emissions built).1
    rw [← mem_publicNames_iff (nodup_factories built keyed nodup) hf, names, List.mem_map]
    constructor
    · rintro ⟨id, hid, same⟩
      obtain ⟨d', hd', shown⟩ := (Option.any_eq_true _ _).1 (shown id hid)
      have theirs := Definition.mem_methodNames_of_isShown shown
      rw [keyed id d' hd', same] at theirs
      have taken := Graph.mem_memberNames_of_named keyed hd' (.inl theirs)
      obtain rfl := own.eq_of_named keyed hk hd' (.inl hn) taken
      exact ⟨hid, same.symm⟩
    · rintro ⟨hid, same⟩
      exact ⟨k, hid, same.symm⟩

/-! ### Containers of all entry points -/

namespace Wiring

variable {w : Wiring} {g : Graph}

/-- No declared identifier stands for the container. -/
def IsApart (w : Wiring) : Prop :=
  ∀ k, w.entries.contains k → k ≠ w.config.container.name ∧ k ∉ w.config.container.interfaces

lemma IsApart.any_isEntryPoint_iff {roots : List Identifier} (apart : w.IsApart)
    (yields : w.Yields roots g) (always : List String) (k : Identifier) :
    ((w.wrapEntries always g).find? k).any Definition.isEntryPoint = true ↔
      g.contains k ∧ w.entries.contains k := by
  rw [yields.any_isEntryPoint_iff always k]
  constructor
  · rintro ⟨present, declared, -⟩
    exact ⟨present, declared⟩
  · rintro ⟨present, declared⟩
    exact ⟨present, declared, apart k declared⟩

lemma IsApart.any_isShown_iff {roots : List Identifier} (apart : w.IsApart)
    (yields : w.Yields roots g) (always : List String) (k : Identifier) :
    ((w.wrapEntries always g).find? k).any Definition.isShown = true ↔
      g.contains k ∧ w.entries.contains k := by
  rw [yields.any_isShown_iff always k]
  constructor
  · rintro ⟨present, declared, -⟩
    exact ⟨present, declared⟩
  · rintro ⟨present, declared⟩
    obtain ⟨notContainer, notInterface⟩ := apart k declared
    exact ⟨present, declared, notContainer, fun hi => absurd hi notInterface⟩

/-- In a graph of all entry points the declared identifiers come first, and if they are picked alone
they are listed as they are declared. -/
lemma Yields.map_filter_of_declared {α : Type} (yields : w.Yields w.entries.identifiers g)
    {always : List String} {p : Definition → Bool}
    (picked : ∀ k, ((w.wrapEntries always g).find? k).any p = true ↔
      g.contains k ∧ w.entries.contains k) (f : Identifier → α) :
    ((w.wrapEntries always g).emissionOrder.filter p).map (fun d => f d.id) =
      w.entries.identifiers.map f := by
  have declared : (w.wrapEntries always g).entryPoints = w.entries.identifiers := by
    rw [entryPoints_wrapEntries, yields.entryPoints]
    exact firstOccurrences_of_nodup w.entries.nodup_identifiers
  rw [Graph.map_filter_emissionOrder (yields.keyed always), Graph.filter_emissionIds, declared]
  · intro k hk
    rw [declared] at hk
    have present := (yields.settled_root hk).1
    rw [contains_wrapEntries]
    exact ⟨present, (picked k).2 ⟨present, EntryPoints.mem_identifiers.1 hk⟩⟩
  · intro k hk
    rw [declared]
    exact EntryPoints.mem_identifiers.2 ((picked k).1 hk).2

lemma IsApart.shows {config : Config} {c : Container} (apart : w.IsApart)
    (resolves : w.resolveAll = .ok g) (built : g.container config = .ok c) :
    c.Shows g w.entries.identifiers := by
  obtain ⟨g₀, always, yields, -, rfl⟩ := resolve_eq_ok.1 resolves
  obtain ⟨rows, names⟩ := exists_of_container built
  apply Container.Shows.of_names built (yields.keyed always) (yields.nodup_entryPoints always)
  · intro id hid
    apply (apart.any_isShown_iff yields always id).2
    exact ⟨(yields.settled_root hid).1, EntryPoints.mem_identifiers.1 hid⟩
  · rw [rows]
    exact yields.map_filter_of_declared (apart.any_isEntryPoint_iff yields always)
      fun k => (k, factoryName k)
  · rw [names]
    exact yields.map_filter_of_declared (apart.any_isShown_iff yields always) factoryName

end Wiring

/-- A container of all entry points shows the declared identifiers, in declared order, and nothing
else, and the files are written for it. -/
theorem shows_of_compile {s : Session} {entries : EntryPoints} {files : Artifacts}
    (declared : EntryPoints.ofConfigs s.provider s.config.entryPoints = .ok entries)
    (compiles : s.compile none = .ok files)
    (notContainer : s.config.container.name ∉ entries.identifiers)
    (notInterface : ∀ i ∈ s.config.container.interfaces, i ∉ entries.identifiers) :
    ∃ g c, s.resolve none = .ok g ∧ g.container s.config = .ok c ∧
      files = c.artifacts s.config ∧ c.IsWritten s.config files ∧
      c.Shows g entries.identifiers := by
  obtain ⟨g, hg, compiles⟩ := bind_eq_ok.1 compiles
  obtain ⟨c, built, rfl⟩ := Graph.exists_container_of_compile compiles
  obtain ⟨entries', hints, he, -, resolves⟩ := Session.resolve_eq_ok.1 hg
  cases declared.symm.trans he
  have apart : (⟨s.config, s.provider, s.mode, entries, hints⟩ : Wiring).IsApart := by
    intro k hk
    have hk := EntryPoints.mem_identifiers.2 hk
    constructor
    · rintro rfl
      exact notContainer hk
    · intro hi
      exact notInterface k hi hk
  obtain ⟨g₀, always, yields, -, rfl⟩ := Wiring.resolve_eq_ok.1 resolves
  have written := isWritten_of_container built (yields.keyed always)
    (yields.nodup_entryPoints always)
  exact ⟨_, c, hg, built, rfl, written, apart.shows resolves built⟩

/-- A depot that is declared as a whole, and a shop behind a proxy with a lamp that is a bulb. -/
def depotSession : Session where
  config :=
    { entryPoints :=
        [{ target := .single "depot::Truck" }, { target := .below "depot" false false },
          { target := .single "Shop", autoload := true }]
      hints := .ofList [("Lamp", .implementation "Bulb" {})] }
  provider := Metadata.provider <| .ofList
    [("depot::Crane", {}),
      ("depot::Truck", { parameters := [{ name := "crane", type := some "depot::Crane" }] }),
      ("Shop", { parameters := [{ name := "lamp", type := some "Lamp" }] }), ("Bulb", {})]

/-- The truck comes first and is not listed again; the lamp, the bulb and the shop behind its proxy
are hidden. -/
theorem shows_depotSession :
    ∃ files g c, depotSession.compile none = .ok files ∧ depotSession.resolve none = .ok g ∧
      g.container depotSession.config = .ok c ∧
      c.factories.map (·.name) =
        ["depot__Truck", "depot__Crane", "Shop__autoloaded", "Shop", "Bulb"] ∧
      c.IsWritten depotSession.config files ∧
      c.Shows g ["depot::Truck", "depot::Crane", "Shop"] := by
  let entries : EntryPoints :=
    ⟨[{ ids := ["depot::Truck"] }, { ids := ["depot::Crane", "depot::Truck"] },
      { ids := ["Shop"], autoload := true }]⟩
  let hints : HintTable := { exact := .ofList [("Lamp", .byClass "Bulb" {})] }
  have he : EntryPoints.ofConfigs depotSession.provider depotSession.config.entryPoints =
    .ok entries := by rfl
  have hh : HintTable.ofConfig depotSession.config = .ok hints := by rfl
  have resolves : (⟨depotSession.config, depotSession.provider, .compile, entries, hints⟩ :
      Wiring).passesWithin 40 entries.identifiers
      (·.containerPasses depotSession.config fun c => c.factories.map (·.name) =
        ["depot__Truck", "depot__Crane", "Shop__autoloaded", "Shop", "Bulb"]) = true := by
    decide +kernel
  obtain ⟨g, hg, passes⟩ := Wiring.exists_of_passesWithin resolves
  obtain ⟨c, hc, methods⟩ := Graph.exists_of_containerPasses passes
  have hg : depotSession.resolve none = .ok g :=
    Session.resolve_eq_ok.2 ⟨entries, hints, he, hh, hg⟩
  have compiles : depotSession.compile none = .ok (c.artifacts depotSession.config) := by
    rw [Session.compile, hg]
    exact congrArg (Except.map _) hc
  obtain ⟨g', c', hg', hc', -, written, shows⟩ :=
    shows_of_compile he compiles (by decide +kernel) (by decide)
  cases hg.symm.trans hg'
  cases hc.symm.trans hc'
  have declared : entries.identifiers = ["depot::Truck", "depot::Crane", "Shop"] := by
    decide +kernel
  rw [declared] at shows
  exact ⟨_, g, c, compiles, hg, hc, of_decide_eq_true methods, written, shows⟩

end Injector
