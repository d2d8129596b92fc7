import Injector.Proofs.Resolution.Closure

/-!
# The first entry points

An agenda in two parts is worked through one part after the other. So the resolution of some entry
points begins with that of the first ones: that the others are declared already makes no difference,
since no task looks at what is declared.
-/

namespace Injector

namespace Graph

/-- A graph with other entry points. -/
def exposing (g : Graph) (es : List Identifier) : Graph := { g with entryPoints := es }

/-! ### No operation looks at the entry points -/

variable (g : Graph) (es : List Identifier)

@[simp] lemma find?_exposing (k : Identifier) : (g.exposing es).find? k = g.find? k := rfl

@[simp] lemma insertIfAbsent_exposing (d : Definition) :
    (g.exposing es).insertIfAbsent d = (g.insertIfAbsent d).exposing es := by
  by_cases hd : (g.find? d.id).isSome
  · simp only [insertIfAbsent, contains_eq, find?_exposing, hd, if_true]
  · simp only [insertIfAbsent, contains_eq, find?_exposing, hd]
    rfl

@[simp] lemma insertAll_exposing (ds : List (Identifier × Definition)) :
    (g.exposing es).insertAll ds = ((g.insertAll ds).1.exposing es, (g.insertAll ds).2) := by
  induction ds generalizing g with
  | nil => rfl
  | cons e ds ih =>
    by_cases he : (g.find? e.2.id).isSome
    · simp only [insertAll, contains_eq, find?_exposing, he, if_true, ih]
    · simp only [insertAll, contains_eq, find?_exposing, he, insertIfAbsent_exposing, ih]
      rfl

@[simp] lemma forward?_exposing (consumer k : Identifier) :
    (g.exposing es).forward? consumer k = g.forward? consumer k := rfl

@[simp] lemma chain_exposing (consumer k : Identifier) :
    (g.exposing es).chain consumer k = g.chain consumer k :=
  chainWithin_congr (g.forward?_exposing es consumer) g.identifiers k

@[simp] lemma recordReference_exposing (consumer : Identifier) (singleton : Bool)
    (k : Identifier) : (g.exposing es).recordReference consumer singleton k =
      (g.recordReference consumer singleton k).exposing es := by
  simp only [recordReference, chain_exposing]
  induction g.chain consumer k generalizing g with
  | nil => rfl
  | cons x xs ih => exact ih (g.addReferrer consumer singleton x)

lemma Keeps.exposing_left {g g' : Graph} {es : List Identifier} (h : (g.exposing es).Keeps g') :
    g.Keeps g' := h

end Graph

namespace Wiring

variable {w : Wiring} {F : Graph}

lemma hintedTasks_exposing (g : Graph) (es : List Identifier) (id : Identifier)
    (consumer : Option Identifier) (placed : Bool) (made : List Identifier) :
    hintedTasks (g.exposing es) id consumer placed made = hintedTasks g id consumer placed made :=
  rfl

/-- A task does the same whatever is declared. -/
lemma perform_exposing (w : Wiring) (g : Graph) (es : List Identifier) (t : Task) :
    w.perform (g.exposing es) t = (w.perform g t).map fun s => (s.1.exposing es, s.2) := by
  cases t with
  | request id consumer placed =>
    simp only [perform, Graph.find?_exposing]
    split
    · simp only [define]
      split
      · cases Hint.definitions _ _ _ _ _ with
        | error e => rfl
        | ok ds =>
          simp only [bind, Except.bind, Graph.insertAll_exposing, hintedTasks_exposing]
          rfl
      · simp only [Graph.insertIfAbsent_exposing]
        rfl
    · split
      · simp only [discover]
        cases w.provider.sourceUnit _ with
        | error e => rfl
        | ok source =>
          cases w.parametersOf _ with
          | error e => rfl
          | ok ps => rfl
      · rfl
    · rfl
  | check id consumer =>
    simp only [perform, checkBranch, Graph.find?_exposing]
    split
    · split <;> rfl
    · rfl
  | count id consumer singleton => simp [perform, Except.map]
  | discoverFields c placed =>
    simp only [perform, discoverFields]
    cases w.fieldsOf c.id <;> rfl
  | complete c => rfl
  | fail e => rfl

lemma Leads.exposing {g h : Graph} {ts us : List Task} (l : w.Leads g ts h us)
    (es : List Identifier) : w.Leads (g.exposing es) ts (h.exposing es) us := by
  induction l with
  | refl => exact .refl
  | step _ done ih =>
    refine .step ih ?_
    rw [perform_exposing, done]
    rfl

lemma start_eq (w : Wiring) (roots : List Identifier) :
    w.start roots = (seed w.config).exposing (firstOccurrences roots) := by
  have definitions : (w.start roots).definitions = (seed w.config).definitions :=
    Table.ext_find? (find?_start w roots)
  calc w.start roots = ⟨(w.start roots).definitions, (w.start roots).entryPoints⟩ := rfl
    _ = _ := by rw [definitions, entryPoints_start]; rfl

/-! ### The resolution of the first entry points -/

variable {before after : List Identifier}

/-- The resolution of some entry points first comes to a graph of the first ones. -/
theorem Yields.exists_first (ok : w.Yields (before ++ after) F) :
    ∃ h es, w.Yields before h ∧
      w.Visits (before ++ after) (h.exposing es) (after.map w.rootTask) := by
  rw [Yields, List.map_append] at ok
  obtain ⟨h, first, -⟩ := exists_leads_of_run_append ok
  have alone := first.exposing (firstOccurrences before)
  have same : (w.start (before ++ after)).exposing (firstOccurrences before) = w.start before := by
    rw [start_eq, start_eq]
    rfl
  rw [same] at alone
  refine ⟨h.exposing (firstOccurrences before), h.entryPoints, ?_, ?_⟩
  · exact alone.run_eq.symm.trans (run_nil w _)
  · have visits := first.append (after.map w.rootTask)
    rw [← List.map_append] at visits
    exact visits

/-- What a definition of a first graph names, it names in the end. -/
lemma Yields.namedDependencies_iff {h : Graph} (first : w.Yields before h) {roots : List Identifier}
    (ok : w.Yields roots F) (keeps : h.Keeps F) {a b : Identifier} (ha : h.contains a) :
    (∃ d, h.find? a = some d ∧ b ∈ d.namedDependencies) ↔
      ∃ d, F.find? a = some d ∧ b ∈ d.namedDependencies := by
  obtain ⟨d, hd⟩ := Option.isSome_iff_exists.1 ha
  obtain ⟨d', hd', shape⟩ := keeps.exists_find? (g := h) hd
  have same : b ∈ d.namedDependencies ↔ b ∈ d'.namedDependencies := by
    rw [first.mem_namedDependencies hd, ok.mem_namedDependencies hd', ← needs_shape, ← shape,
      needs_shape]
  simp only [show h.find? a = some d from hd, hd', Option.some.injEq, exists_eq_left', same]

/-- The first entry points bring in what they depend on in the end. -/
theorem Yields.contains_first_iff {h : Graph} (first : w.Yields before h) {roots : List Identifier}
    (ok : w.Yields roots F) (keeps : h.Keeps F) {k : Identifier} :
    h.contains k ↔ (seed w.config).contains k ∨ ∃ r ∈ before, Relation.ReflTransGen
      (fun a b => ∃ d, F.find? a = some d ∧ b ∈ d.namedDependencies) r k := by
  have edge : ∀ {a b}, h.contains a → _ := fun {a b} ha =>
    first.namedDependencies_iff (b := b) ok keeps (a := a) ha
  constructor
  · intro hk
    refine (first.contains_iff.1 hk).imp_right ?_
    rintro ⟨r, hr, path⟩
    refine ⟨r, hr, Relation.ReflTransGen.mono (fun a b hab => ?_) _ _ path⟩
    obtain ⟨d, hd, -⟩ := id hab
    exact (edge (by simp [hd])).1 hab
  · rintro (hk | ⟨r, hr, path⟩)
    · exact first.contains_iff.2 (.inl hk)
    · induction path with
      | refl => exact (first.settled_root hr).1
      | tail _ hab ih =>
        obtain ⟨d, hd, hb⟩ := (edge ih).2 hab
        exact (first.settled hd hb).1

end Wiring

end Injector
