import Injector.Proofs.Resolution.Newborn

/-!
# Graphs without placement

Clearing the placement of all definitions commutes with everything that resolution does to a graph,
and changes nothing that it looks at: which identifiers are defined, where they forward to, what they
name and in which scope they live.
-/

namespace Injector

namespace Definition

/-! ### Definitions without placement -/

/-- An identifier with its definition, whose body stays in the main file. -/
def clearEntry (e : Identifier × Definition) : Identifier × Definition := (e.1, e.2.clearPlacement)

lemma clearBranches_eq (branches : List (Identifier × Definition)) :
    clearBranches branches = branches.map clearEntry := by
  induction branches with
  | nil => rfl
  | cons e rest ih => rw [clearBranches, ih]; rfl

lemma clearDefault_eq (default : Option Definition) :
    clearDefault default = default.map clearPlacement := by
  cases default <;> rfl

lemma lookup_clearBranches (k : Identifier) (branches : List (Identifier × Definition)) :
    (clearBranches branches).lookup k = (branches.lookup k).map clearPlacement := by
  induction branches with
  | nil => rfl
  | cons e rest ih =>
    obtain ⟨j, d⟩ := e
    by_cases hk : k = j <;> simp [clearBranches, lookup_cons, hk, ih]

@[simp] lemma branchFor?_clear (default : Option Definition)
    (branches : List (Identifier × Definition)) (consumer : Option Identifier) :
    branchFor? (clearDefault default) (clearBranches branches) consumer =
      (branchFor? default branches consumer).map clearPlacement := by
  cases consumer with
  | none => simp [branchFor?, clearDefault_eq]
  | some k => cases h : branches.lookup k <;> simp [branchFor?, clearDefault_eq,
      lookup_clearBranches, h]

mutual

@[simp] lemma clearPlacement_clearPlacement (d : Definition) :
    d.clearPlacement.clearPlacement = d.clearPlacement := by
  match d with
  | .cls c => rfl
  | .alias a => rfl
  | .container id => rfl
  | .perConsumer id scope entryPoint default branches =>
    simp only [clearPlacement]
    rw [clearDefault_clearDefault default, clearBranches_clearBranches branches]
  | .autoloaded inner fileBased always =>
    simp only [clearPlacement]
    rw [clearPlacement_clearPlacement inner]

lemma clearBranches_clearBranches (branches : List (Identifier × Definition)) :
    clearBranches (clearBranches branches) = clearBranches branches := by
  match branches with
  | [] => rfl
  | (k, d) :: rest =>
    simp only [clearBranches]
    rw [clearPlacement_clearPlacement d, clearBranches_clearBranches rest]

lemma clearDefault_clearDefault (default : Option Definition) :
    clearDefault (clearDefault default) = clearDefault default := by
  match default with
  | none => rfl
  | some d =>
    simp only [clearDefault]
    rw [clearPlacement_clearPlacement d]

end

@[simp] lemma aliasTarget?_clearPlacement (d : Definition) :
    d.clearPlacement.aliasTarget? = d.aliasTarget? := by
  cases d <;> rfl

@[simp] lemma forward?_clearPlacement (consumer : Identifier) (d : Definition) :
    d.clearPlacement.forward? consumer = d.forward? consumer := by
  cases d with
  | perConsumer id scope entryPoint default branches =>
    simp only [clearPlacement, forward?, branchFor?_clear, Option.bind_map]
    congr 1
    funext d
    exact aliasTarget?_clearPlacement d
  | cls | «alias» | container | autoloaded => rfl

@[simp] lemma scope_clearPlacement (d : Definition) : d.clearPlacement.scope = d.scope := by
  induction d using Definition.id.induct <;> simp_all [clearPlacement, scope]

@[simp] lemma keepsInstance_clearPlacement (d : Definition) :
    Graph.keepsInstance d.clearPlacement = Graph.keepsInstance d := by
  induction d using Definition.id.induct <;> simp_all [clearPlacement, Graph.keepsInstance]

@[simp] lemma dependencies_clearPlacement (d : Definition) :
    d.clearPlacement.dependencies = d.dependencies := by
  rw [dependencies, dependencies, namedDependencies_clearPlacement]

@[simp] lemma clearPlacement_begun (d : Definition) :
    d.begun.clearPlacement = d.clearPlacement.begun := by
  cases d <;> rfl

@[simp] lemma clearPlacement_completed (found : ClassDefinition) (d : Definition) :
    (d.completed found).clearPlacement = d.clearPlacement.completed found := by
  cases d <;> rfl

@[simp] lemma clearPlacement_addReferrer (consumer : Identifier) (singleton : Bool)
    (d : Definition) : (d.addReferrer consumer singleton).clearPlacement =
      d.clearPlacement.addReferrer consumer singleton := by
  induction d using Definition.id.induct <;> simp_all [clearPlacement, addReferrer]

@[simp] lemma clearPlacement_wrapped (always : List String) (d : Definition) :
    (Graph.wrapped always d).clearPlacement = Graph.wrapped always d.clearPlacement := by
  cases d <;> rfl

end Definition

namespace Graph

/-- Graphs that expose the same and answer every look-up alike are equal. -/
lemma ext_find? {g g' : Graph} (entryPoints : g.entryPoints = g'.entryPoints)
    (found : ∀ k, g.find? k = g'.find? k) : g = g' := by
  have definitions : g.definitions = g'.definitions := Table.ext_find? found
  cases g
  cases g'
  congr

/-- A graph with all bodies in the main file. -/
def unplaced (g : Graph) : Graph :=
  { g with definitions := g.definitions.mapValues fun _ d => d.clearPlacement }

/-! ### Every operation commutes with clearing -/

variable (g : Graph)

@[simp] lemma find?_unplaced (k : Identifier) :
    g.unplaced.find? k = (g.find? k).map Definition.clearPlacement :=
  Table.find?_mapValues ..

@[simp] lemma entryPoints_unplaced : g.unplaced.entryPoints = g.entryPoints := rfl

@[simp] lemma identifiers_unplaced : g.unplaced.identifiers = g.identifiers := by
  simp [identifiers, unplaced, Table.keys, Table.mapValues]

@[simp] lemma insertIfAbsent_unplaced (d : Definition) :
    g.unplaced.insertIfAbsent d.clearPlacement = (g.insertIfAbsent d).unplaced := by
  refine ext_find? (by simp) fun k => ?_
  rw [find?_unplaced, find?_insertIfAbsent, find?_insertIfAbsent, find?_unplaced,
    Definition.id_clearPlacement]
  split
  · cases g.find? k <;> rfl
  · rfl

@[simp] lemma insertAll_unplaced (ds : List (Identifier × Definition)) :
    g.unplaced.insertAll (ds.map Definition.clearEntry) =
      ((g.insertAll ds).1.unplaced, (g.insertAll ds).2) := by
  induction ds generalizing g with
  | nil => rfl
  | cons e ds ih =>
    by_cases he : (g.find? e.2.id).isSome
    · simp [insertAll, Definition.clearEntry, he, ih]
    · simp [insertAll, Definition.clearEntry, he, ih]

/-- A change that has nothing to do with placement. -/
lemma adjust_unplaced {f f' : Definition → Definition}
    (hf : ∀ d, (f d).clearPlacement = f' d.clearPlacement) (id : Identifier) :
    g.unplaced.adjust id f' = (g.adjust id f).unplaced := by
  refine ext_find? rfl fun k => ?_
  rw [find?_unplaced, find?_adjust, find?_adjust, find?_unplaced]
  split
  · cases g.find? k <;> simp [hf]
  · rfl

@[simp] lemma forward?_unplaced (consumer k : Identifier) :
    g.unplaced.forward? consumer k = g.forward? consumer k := by
  rw [forward?, forward?, find?_unplaced, Option.bind_map]
  congr 1
  funext d
  exact d.forward?_clearPlacement consumer

@[simp] lemma chain_unplaced (consumer k : Identifier) :
    g.unplaced.chain consumer k = g.chain consumer k := by
  rw [chain, chain, identifiers_unplaced, chainWithin_congr (g.forward?_unplaced consumer)]

@[simp] lemma recordReference_unplaced (consumer : Identifier) (singleton : Bool)
    (k : Identifier) : g.unplaced.recordReference consumer singleton k =
      (g.recordReference consumer singleton k).unplaced := by
  simp only [recordReference, chain_unplaced]
  induction g.chain consumer k generalizing g with
  | nil => rfl
  | cons x xs ih =>
    have first : g.unplaced.addReferrer consumer singleton x =
        (g.addReferrer consumer singleton x).unplaced :=
      g.adjust_unplaced (Definition.clearPlacement_addReferrer consumer singleton) x
    rw [List.foldl_cons, List.foldl_cons, first, ih]

@[simp] lemma wrap_unplaced (always : List String) (k : Identifier) :
    g.unplaced.wrap always k = (g.wrap always k).unplaced :=
  g.adjust_unplaced (Definition.clearPlacement_wrapped always) k

end Graph

end Injector
