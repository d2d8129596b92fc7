import Injector.Proofs.Resolution.Closure

/-!
# The outcome of a resolution

A resolution that succeeds is a run that comes to an end, followed by the proxies of entry points.
A proxy changes neither what a definition is called nor what it names.
-/

namespace Injector

/-! ### Looking through proxies -/

namespace Definition

/-- A definition without the proxies before it. -/
def core : Definition → Definition
  | .autoloaded inner .. => inner.core
  | d => d

/-- What is the same for a proxy and for what it stands before is the same behind all proxies. -/
lemma apply_core {α : Type*} (f : Definition → α)
    (same : ∀ inner fileBased always, f (.autoloaded inner fileBased always) = f inner)
    (d : Definition) : f d.core = f d := by
  induction d using Definition.id.induct with
  | case5 inner fileBased always ih => rw [core, ih, same]
  | case1 | case2 | case3 | case4 => rfl

@[simp] lemma id_core (d : Definition) : d.core.id = d.id :=
  apply_core id (fun _ _ _ => rfl) d

@[simp] lemma referrers?_core (d : Definition) : d.core.referrers? = d.referrers? :=
  apply_core referrers? (fun _ _ _ => rfl) d

@[simp] lemma keepsInstance_core (d : Definition) :
    Graph.keepsInstance d.core = Graph.keepsInstance d :=
  apply_core Graph.keepsInstance (fun _ _ _ => rfl) d

/-- Only the instances of classes are kept. -/
lemma exists_core_of_keepsInstance {d : Definition} (h : Graph.keepsInstance d) :
    ∃ c, d.core = .cls c := by
  induction d using Definition.id.induct with
  | case1 c => exact ⟨c, rfl⟩
  | case5 inner _ _ ih => exact ih h
  | case2 | case3 | case4 => cases h

@[simp] lemma core_wrapped (always : List String) (d : Definition) :
    (Graph.wrapped always d).core = d.core := by
  cases d <;> rfl

@[simp] lemma id_wrapped (always : List String) (d : Definition) :
    (Graph.wrapped always d).id = d.id := by
  cases d <;> rfl

@[simp] lemma isEntryPoint_wrapped (always : List String) (d : Definition) :
    (Graph.wrapped always d).isEntryPoint = d.isEntryPoint := by
  cases d <;> rfl

@[simp] lemma namedDependencies_wrapped (always : List String) (d : Definition) :
    (Graph.wrapped always d).namedDependencies = d.namedDependencies := by
  cases d <;> rfl

@[simp] lemma wrapped_wrapped (always : List String) (d : Definition) :
    Graph.wrapped always (Graph.wrapped always d) = Graph.wrapped always d := by
  cases d <;> rfl

end Definition

/-- A graph without its proxies. -/
def Graph.unwrapped (g : Graph) : Graph :=
  { g with definitions := g.definitions.mapValues fun _ d => d.core }

namespace Wiring

variable {w : Wiring} {roots : List Identifier}

/-- A definition of an identifier, with a proxy if it gets one. -/
def front (w : Wiring) (always : List String) (k : Identifier) (d : Definition) : Definition :=
  if k ∈ w.wrappedEntries then Graph.wrapped always d else d

/-- What is the same for a definition and its proxy is the same at the front. -/
lemma apply_front {α : Type} (f : Definition → α) {always : List String} {d : Definition}
    (same : f (Graph.wrapped always d) = f d) (k : Identifier) : f (w.front always k d) = f d := by
  by_cases hk : k ∈ w.wrappedEntries
  · rw [front, if_pos hk, same]
  · rw [front, if_neg hk]

@[simp] lemma core_front (w : Wiring) (always : List String) (k : Identifier) (d : Definition) :
    (w.front always k d).core = d.core :=
  apply_front Definition.core (Definition.core_wrapped always d) k

@[simp] lemma id_front (w : Wiring) (always : List String) (k : Identifier) (d : Definition) :
    (w.front always k d).id = d.id :=
  apply_front Definition.id (Definition.id_wrapped always d) k

@[simp] lemma isEntryPoint_front (w : Wiring) (always : List String) (k : Identifier)
    (d : Definition) : (w.front always k d).isEntryPoint = d.isEntryPoint :=
  apply_front Definition.isEntryPoint (Definition.isEntryPoint_wrapped always d) k

@[simp] lemma namedDependencies_front (w : Wiring) (always : List String) (k : Identifier)
    (d : Definition) : (w.front always k d).namedDependencies = d.namedDependencies :=
  apply_front Definition.namedDependencies (Definition.namedDependencies_wrapped always d) k

@[simp] lemma referrers?_front (w : Wiring) (always : List String) (k : Identifier)
    (d : Definition) : (w.front always k d).referrers? = d.referrers? := by
  apply apply_front
  cases d <;> rfl

lemma find?_wrapEntries (w : Wiring) (always : List String) (g : Graph) (k : Identifier) :
    (w.wrapEntries always g).find? k = (g.find? k).map (w.front always k) := by
  have fold : ∀ (ks : List Identifier) (g : Graph),
      (ks.foldl (·.wrap always) g).find? k =
        (g.find? k).map fun d => if k ∈ ks then Graph.wrapped always d else d := by
    intro ks
    induction ks with
    | nil => simp
    | cons j ks ih =>
      intro g
      rw [List.foldl_cons, ih, Graph.wrap, Graph.find?_adjust]
      by_cases hk : k = j
      · cases g.find? k <;> simp [hk]
      · simp [hk]
  exact fold w.wrappedEntries g

/-! ### Runs and proxies -/

lemma resolve_eq_ok {g : Graph} :
    w.resolve roots = .ok g ↔
      ∃ h always, w.Yields roots h ∧ w.alwaysActivated = .ok always ∧
        w.wrapEntries always h = g := by
  have outcome : ∀ {h}, (w.run (w.start roots) (roots.map w.rootTask)).getD (.error .unfinished)
      = .ok h ↔ w.Yields roots h := by
    intro h
    simp only [Yields]
    cases w.run (w.start roots) (roots.map w.rootTask) <;> simp
  simp only [resolve, bind_eq_ok, outcome, pure, Except.pure, Except.ok.injEq]
  constructor
  · rintro ⟨h, yields, always, ha, rfl⟩
    exact ⟨h, always, yields, ha, rfl⟩
  · rintro ⟨h, always, yields, ha, rfl⟩
    exact ⟨h, yields, always, ha, rfl⟩

lemma resolve_of_resolveFor {entry : Option Identifier} {g : Graph}
    (h : w.resolveFor entry = .ok g) : w.resolve (w.rootsFor entry) = .ok g := by
  cases entry with
  | none => exact h
  | some id =>
    simp only [resolveFor, resolveOne] at h
    split at h
    · exact h
    · cases h

/-- A graph that was asked for is the outcome of a run, with proxies for some entry points. -/
theorem exists_of_resolveFor {entry : Option Identifier} {g : Graph}
    (h : w.resolveFor entry = .ok g) :
    ∃ h always, w.Yields (w.rootsFor entry) h ∧ w.wrapEntries always h = g := by
  obtain ⟨h, always, yields, -, eq⟩ := resolve_eq_ok.1 (resolve_of_resolveFor h)
  exact ⟨h, always, yields, eq⟩

/-- Behind the proxies of a resolved graph there is what the run came to. -/
lemma Yields.find?_core {g : Graph} (yields : w.Yields roots g) {always : List String}
    {k : Identifier} {d : Definition} (hk : (w.wrapEntries always g).find? k = some d) :
    g.find? k = some d.core := by
  rw [find?_wrapEntries] at hk
  obtain ⟨d₀, hd, rfl⟩ := Option.map_eq_some_iff.1 hk
  rw [core_front]
  cases d₀ with
  | autoloaded => exact absurd hd yields.original.ne_autoloaded
  | cls | «alias» | container | perConsumer => exact hd

/-- A proxy stands right before what the run came to, goes to a file together with it and activates
the same as all others. -/
lemma Yields.cases_autoloaded {g : Graph} (yields : w.Yields roots g) {always : List String}
    {k : Identifier} {inner : Definition} {fileBased : Bool} {units : List String}
    (hk : (w.wrapEntries always g).find? k = some (.autoloaded inner fileBased units)) :
    g.find? k = some inner ∧ inner.isFileBased = fileBased ∧ units = always := by
  rw [find?_wrapEntries] at hk
  obtain ⟨d, hd, hk⟩ := Option.map_eq_some_iff.1 hk
  rw [front] at hk
  split at hk
  · cases d with
    | cls | «alias» =>
      cases hk
      exact ⟨hd, rfl, rfl⟩
    | container | perConsumer => cases hk
    | autoloaded => exact absurd hd yields.original.ne_autoloaded
  · subst hk
    exact absurd hd yields.original.ne_autoloaded

/-! ### Graphs without proxies -/

@[simp] lemma entryPoints_wrapEntries (w : Wiring) (always : List String) (g : Graph) :
    (w.wrapEntries always g).entryPoints = g.entryPoints := by
  simp only [wrapEntries]
  induction w.wrappedEntries generalizing g with
  | nil => rfl
  | cons k ks ih => rw [List.foldl_cons, ih]; rfl

/-- A proxy goes by the identifier of what it stands before. -/
lemma Yields.keyed {g : Graph} (yields : w.Yields roots g) (always : List String) (k : Identifier)
    (d : Definition) (hk : (w.wrapEntries always g).find? k = some d) : d.id = k := by
  rw [← Definition.id_core]
  exact yields.original.id_eq (yields.find?_core hk)

lemma Yields.nodup_entryPoints {g : Graph} (yields : w.Yields roots g) (always : List String) :
    (w.wrapEntries always g).entryPoints.Nodup := by
  rw [entryPoints_wrapEntries, yields.entryPoints]
  exact nodup_firstOccurrences roots

/-- Without proxies a graph is what the run came to. -/
lemma unwrapped_wrapEntries {g : Graph} (yields : w.Yields roots g) (always : List String) :
    (w.wrapEntries always g).unwrapped = g := by
  have definitions : (w.wrapEntries always g).unwrapped.definitions = g.definitions := by
    apply Table.ext_find?
    intro k
    have wrapped : (w.wrapEntries always g).definitions.find? k =
      (g.definitions.find? k).map (w.front always k) := find?_wrapEntries w always g k
    rw [Graph.unwrapped, Table.find?_mapValues, wrapped]
    cases hd : g.definitions.find? k with
    | none => rfl
    | some d =>
      have bare : d.core = d := by
        cases d with
        | autoloaded => exact absurd hd yields.original.ne_autoloaded
        | _ => rfl
      simp [bare]
  have entryPoints : (w.wrapEntries always g).unwrapped.entryPoints = g.entryPoints :=
    entryPoints_wrapEntries w always g
  calc (w.wrapEntries always g).unwrapped
      = ⟨(w.wrapEntries always g).unwrapped.definitions,
          (w.wrapEntries always g).unwrapped.entryPoints⟩ := rfl
    _ = g := by rw [definitions, entryPoints]

/-! ### Bounded resolution -/

/-- The graph of some entry points, if it takes no more than `n` steps. -/
def resolveWithin (w : Wiring) (n : Nat) (roots : List Identifier) :
    Option (Except Error Graph) :=
  (w.runFor n (w.start roots) (roots.map w.rootTask)).map fun outcome => do
    let g ← outcome
    return w.wrapEntries (← w.alwaysActivated) g

/-- A bound that is high enough is no restriction. -/
theorem resolve_of_resolveWithin {n : Nat} {r : Except Error Graph}
    (h : w.resolveWithin n roots = some r) : w.resolve roots = r := by
  obtain ⟨outcome, ho, rfl⟩ := Option.map_eq_some_iff.1 h
  simp only [resolve]
  rw [run_of_runFor ho]
  rfl

/-- Resolution takes no more than `n` steps, and its graph passes a test. -/
def passesWithin (w : Wiring) (n : Nat) (roots : List Identifier) (test : Graph → Bool) : Bool :=
  match w.resolveWithin n roots with
  | some (.ok g) => test g
  | _ => false

theorem exists_of_passesWithin {n : Nat} {test : Graph → Bool}
    (h : w.passesWithin n roots test = true) : ∃ g, w.resolve roots = .ok g ∧ test g = true := by
  simp only [passesWithin] at h
  split at h
  · next g hg => exact ⟨g, resolve_of_resolveWithin hg, h⟩
  · cases h

end Wiring

/-- A graph has a class for an identifier, and it passes a test. -/
def Graph.classPasses (g : Graph) (k : Identifier) (test : ClassDefinition → Bool) : Bool :=
  match g.find? k with
  | some (.cls c) => test c
  | _ => false

lemma Graph.exists_of_classPasses {g : Graph} {k : Identifier} {test : ClassDefinition → Bool}
    (h : g.classPasses k test = true) : ∃ c, g.find? k = some (.cls c) ∧ test c = true := by
  simp only [classPasses] at h
  split at h
  · next c hc => exact ⟨c, hc, h⟩
  · cases h

/-- A service that needs a store, which is a disk that asks the container for more. -/
def storeWiring : Wiring where
  config := { container := { interfaces := ["Locator"] } }
  provider := Metadata.provider <| .ofList
    [("Service", { parameters := [{ name := "store", type := some "Store" }] }),
      ("Disk", { parameters := [{ name := "locator", type := some "Locator" }] })]
  mode := .compile
  entries := ⟨[{ ids := ["Service"] }]⟩
  hints := ⟨.ofList [("Store", .byClass "Disk" {})], []⟩

end Injector
