import Injector.Proofs.Resolution.Outcome

/-!
# Implementations

The settings of a hint are for the class that it names. They count if the class is first defined
from the hint; a class that is asked for before that is defined without a hint, and a definition is
never replaced. So if a class is named by one hint only, its settings are those of the hint or none
at all, and which of them is a matter of what is asked for first.
-/

namespace Injector

/-- The container itself satisfies an identifier. -/
def Config.IsContainer (c : Config) (k : Identifier) : Prop :=
  k = c.container.name ∨ k ∈ c.container.interfaces

instance (c : Config) (k : Identifier) : Decidable (c.IsContainer k) :=
  inferInstanceAs (Decidable (_ ∨ _))

/-- Settings are part of what a class was made as. -/
lemma ClassDefinition.HasSettings.of_shape_eq {c c' : ClassDefinition} {entries : EntryPoints}
    {s : ClassSettings} (h : c.HasSettings entries s) (shape : c'.shape = c) :
    c'.HasSettings entries s := by
  subst shape
  exact ⟨h.scope, h.parameters, h.fields⟩

namespace Wiring

variable {w : Wiring} {a c : Identifier} {s : ClassSettings} {g g' h : Graph} {t : Task}
  {next us : List Task}

/-- The hint for `a` names the class `c` with some settings, and nothing else says how `c` is to be
built: it has no hint of its own, no other hint names it, and the container does not satisfy it. -/
structure Implements (w : Wiring) (c a : Identifier) (s : ClassSettings) : Prop where
  wildcards : w.hints.wildcards = []
  hinted : w.hints.exact.find? a = some (.byClass c s)
  ne : c ≠ a
  unhinted : w.hints.exact.find? c = none
  only : ∀ e ∈ w.hints.exact.entries, c ∈ (Hint.exact e.2).targets e.1 → e.1 = a
  free : ¬w.config.IsContainer c

/-- A class was made with some settings. -/
def MadeWith (w : Wiring) (c : Identifier) (s : ClassSettings) (g : Graph) : Prop :=
  ∃ placed, g.shape? c = some (.cls (classDefinition w.entries c s placed))

lemma MadeWith.keeps (made : w.MadeWith c s g) (keeps : g.Keeps g') : w.MadeWith c s g' := by
  obtain ⟨placed, hc⟩ := made
  exact ⟨placed, keeps c _ hc⟩

lemma MadeWith.of_find? {placed : Bool}
    (hc : g.find? c = some (.cls (classDefinition w.entries c s placed))) : w.MadeWith c s g := by
  refine ⟨placed, ?_⟩
  rw [Graph.shape?_of_find? hc, (newborn_classDefinition w c s placed).shape_eq]

lemma MadeWith.exists_cls (made : w.MadeWith c s g) :
    ∃ cls, g.find? c = some (.cls cls) ∧ cls.HasSettings w.entries s := by
  obtain ⟨placed, hc⟩ := made
  obtain ⟨d, hd, shape⟩ := Graph.exists_find?_of_shape? hc
  obtain ⟨cls, rfl, same⟩ := Definition.eq_cls_of_shape_eq shape
  exact ⟨cls, hd, (hasSettings_classDefinition w.entries c s placed).of_shape_eq same⟩

/-! ### What one task does -/

section Step

variable (i : w.Implements c a s)
include i

lemma Implements.find?_hints_self : w.hints.find? c = none := by
  simp [HintTable.find?, i.unhinted, i.wildcards]

lemma Implements.find?_hints : w.hints.find? a = some (.exact (.byClass c s)) := by
  simp [HintTable.find?, i.hinted]

/-- When the class is asked for first, it is made without settings. -/
lemma Implements.madeWith_of_define {consumer : Option Identifier} {placed : Bool}
    (absent : g.find? c = none) (done : w.define g c consumer placed = .ok (g', next)) :
    w.MadeWith c {} g' ∧ g'.shape? a = g.shape? a := by
  simp only [define, i.find?_hints_self] at done
  cases done
  have hid : (Definition.cls (w.ownDefinition c (placed && !w.config.staysInline c))).id = c :=
    (newborn_classDefinition w c {} _).id_eq
  constructor
  · apply MadeWith.of_find?
    rw [Graph.find?_insertIfAbsent, if_pos hid.symm, absent]
    rfl
  · rw [Graph.shape?, Graph.find?_insertIfAbsent, hid, if_neg i.ne.symm]
    rfl

/-- When the identifier of the hint is asked for, the class is made with the settings of the hint,
unless it is there. -/
lemma Implements.madeWith_of_define_hinted {consumer : Option Identifier} {placed : Bool}
    (absent : g.find? a = none) (done : w.define g a consumer placed = .ok (g', next)) :
    g'.contains a ∧ (g.find? c = none → w.MadeWith c s g') := by
  let here := placed && !w.config.staysInline a
  obtain ⟨first, bound⟩ : ∃ first, (Hint.exact (.byClass c s)).definitions w.entries w.hints a here =
      .ok [(a, first), (c, .cls (classDefinition w.entries c s here))] := by
    simp only [Hint.definitions, classBinding, if_neg i.ne, implementation?, i.unhinted]
    exact ⟨_, rfl⟩
  rw [define_of_hint g consumer i.find?_hints bound] at done
  cases done
  obtain ⟨d, rest, eq, unfolds⟩ := unfolds_definitions i.find?_hints bound
  have keyed := unfolds.keyed
  rw [← eq] at keyed
  constructor
  · rw [eq, Graph.contains_eq, unfolds.find?_first absent]
    rfl
  · intro hc
    obtain ⟨b, made⟩ : ∃ b,
        (w.inlined [(a, first), (c, .cls (classDefinition w.entries c s here))]).lookup c =
          some (.cls (classDefinition w.entries c s b)) := by
      simp only [inlined, List.map_cons, List.map_nil, lookup_cons, if_neg i.ne, if_true,
        clearPlacement_classDefinition]
      split
      · exact ⟨false, rfl⟩
      · exact ⟨here, rfl⟩
    exact .of_find? (by rw [Graph.find?_insertAll g keyed, hc, Option.none_or, made])

/-- No hint for another identifier makes either of them besides. -/
lemma Implements.not_mem_of_unfolds {hint : Hint} {id k : Identifier} {d : Definition}
    {rest : List (Identifier × Definition)} (hk : k = a ∨ k = c) (other : id ≠ a)
    (unfolds : w.Unfolds hint id d rest) (d' : Definition) : (k, d') ∉ rest := by
  intro hd'
  rcases hk with rfl | rfl
  -- the hint for `a` takes it elsewhere, so no hint defines it
  · have := unfolds.alone _ hd'
    simp [HintTable.leavesAlone, i.hinted, i.ne] at this
  -- no other hint names `c`
  · have named := unfolds.targets _ (unfolds.named _ hd')
    cases hint with
    | exact b =>
      have found := HintTable.find?_exact_of_find? unfolds.found
      exact other (i.only (id, b) ((Table.mem_entries_iff_find? _ _ _).2 found) named)
    | wildcard hint =>
      have mem := HintTable.mem_wildcards_of_find? unfolds.found
      rw [i.wildcards] at mem
      cases mem

/-- No other identifier brings a definition of either of them. -/
lemma Implements.shape?_of_define {id k : Identifier} {consumer : Option Identifier}
    {placed : Bool} (hk : k = a ∨ k = c) (other : id ≠ a ∧ id ≠ c)
    (done : w.define g id consumer placed = .ok (g', next)) : g'.shape? k = g.shape? k := by
  have hkid : k ≠ id := by
    rcases hk with rfl | rfl
    · exact other.1.symm
    · exact other.2.symm
  rcases cases_of_define done with ⟨hint, d, rest, unfolds, rfl, -⟩ | ⟨own, new, rfl, -⟩
  · have none : ((id, d) :: rest).lookup k = none := by
      rw [lookup_cons, if_neg hkid]
      refine List.lookup_eq_none_iff.2 fun e he => bne_iff_ne.2 ?_
      rintro rfl
      exact i.not_mem_of_unfolds hk other.1 unfolds e.2 he
    rw [Graph.shape?, Graph.find?_insertAll g unfolds.keyed, none, Option.or_none]
    rfl
  · rw [Graph.shape?, Graph.find?_insertIfAbsent, new.id_eq, if_neg hkid]
    rfl

/-- A task leaves both identifiers as they are, or makes the class without settings because it is
asked for, or with those of the hint. -/
theorem Implements.cases_of_perform (done : w.perform g t = .ok (g', next)) :
    (∀ k, k = a ∨ k = c → g'.shape? k = g.shape? k) ∨
    (∃ consumer placed, t = .request c consumer placed ∧ g.find? c = none ∧ w.MadeWith c {} g' ∧
      g'.shape? a = g.shape? a) ∨
    (g.find? a = none ∧ g'.contains a ∧ (g.find? c = none → w.MadeWith c s g')) := by
  rcases shape?_of_perform done with ⟨id, consumer, placed, rfl, absent, done⟩ | same
  · by_cases hc : id = c
    · subst hc
      have made := i.madeWith_of_define absent done
      exact .inr (.inl ⟨consumer, placed, rfl, absent, made⟩)
    by_cases ha : id = a
    · subst ha
      exact .inr (.inr ⟨absent, i.madeWith_of_define_hinted absent done⟩)
    · exact .inl fun k hk => i.shape?_of_define hk ⟨ha, hc⟩ done
  · exact .inl fun k _ => same k

end Step

/-! ### What a resolution does -/

/-- The class is asked for while the identifier is undefined. -/
def AsksBefore (w : Wiring) (roots : List Identifier) (c a : Identifier) : Prop :=
  ∃ h consumer placed rest, w.Visits roots h (.request c consumer placed :: rest) ∧
    h.find? a = none

lemma find?_start_of_not_isContainer {roots : List Identifier} {k : Identifier}
    (hk : ¬w.config.IsContainer k) : (w.start roots).find? k = none := by
  obtain ⟨name, interface⟩ := not_or.1 hk
  rw [find?_start, find?_seed, if_neg name, if_neg interface]

section Run

variable {roots : List Identifier} {F : Graph} (i : w.Implements c a s)
include i

/-- While the identifier is undefined, the class is undefined too, or made without settings. -/
lemma Implements.cases_of_visits (v : w.Visits roots h us) (absent : h.find? a = none) :
    h.find? c = none ∨ w.MadeWith c {} h := by
  induction v with
  | refl => exact .inl (find?_start_of_not_isContainer i.free)
  | @step h h' t rest next before done ih =>
    have keeps := keeps_of_perform done
    have absent' : h.find? a = none := by
      by_contra defined
      have := keeps.contains (Option.isSome_iff_ne_none.2 defined)
      simp [absent] at this
    rcases i.cases_of_perform done with same | ⟨-, -, -, -, made, -⟩ | ⟨-, defined, -⟩
    · rcases ih absent' with undefined | made
      · left
        have shape := same c (.inr rfl)
        rw [Graph.shape?, Graph.shape?, undefined] at shape
        exact Option.map_eq_none_iff.1 shape
      · exact .inr (made.keeps keeps)
    · exact .inr made
    · simp [absent] at defined

/-- A class that is asked for while the identifier is undefined is made without settings. -/
lemma Implements.madeWith_of_asksBefore (ok : w.Yields roots F) (asks : w.AsksBefore roots c a) :
    w.MadeWith c {} F := by
  obtain ⟨h, consumer, placed, rest, v, absent⟩ := asks
  rcases i.cases_of_visits v absent with undefined | made
  · obtain ⟨h', next, done, -⟩ := Leads.exists_perform ok v
    have defines := done
    simp only [perform, undefined] at defines
    exact (i.madeWith_of_define undefined defines).1.keeps (ok.keeps (v.step done))
  · exact made.keeps (ok.keeps v)

/-- Unless the class is asked for while the identifier is undefined, it is made with the settings of
the hint, as soon as the identifier is defined. -/
lemma Implements.madeWith_of_not_asksBefore (free : ¬w.config.IsContainer a)
    (asks : ¬w.AsksBefore roots c a) (v : w.Visits roots h us) :
    (h.find? a = none ∧ h.find? c = none) ∨ (h.contains a ∧ w.MadeWith c s h) := by
  induction v with
  | refl =>
    exact .inl ⟨find?_start_of_not_isContainer free, find?_start_of_not_isContainer i.free⟩
  | @step h h' t rest next before done ih =>
    have keeps := keeps_of_perform done
    rcases ih with ⟨absent, undefined⟩ | ⟨defined, made⟩
    · rcases i.cases_of_perform done with same | ⟨consumer, placed, rfl, -⟩ | ⟨-, defined, made⟩
      · left
        have kept : ∀ k, k = a ∨ k = c → h.find? k = none → h'.find? k = none := by
          intro k hk hn
          have shape := same k hk
          rw [Graph.shape?, Graph.shape?, hn] at shape
          exact Option.map_eq_none_iff.1 shape
        exact ⟨kept a (.inl rfl) absent, kept c (.inr rfl) undefined⟩
      · exact absurd ⟨h, consumer, placed, rest, before, absent⟩ asks
      · exact .inr ⟨defined, made undefined⟩
    · exact .inr ⟨keeps.contains defined, made.keeps keeps⟩

end Run

end Wiring

open Wiring

/-- In a resolved graph a class that only one hint names has the settings of that hint, unless it was
asked for before the identifier of the hint was defined; then it has none. -/
theorem hasSettings_of_resolveAll {w : Wiring} {c a : Identifier} {s : ClassSettings}
    (i : w.Implements c a s) (free : ¬w.config.IsContainer a) {g : Graph}
    (h : w.resolveAll = .ok g) (defined : g.contains a) :
    ∃ d cls, g.find? c = some d ∧ d.core = .cls cls ∧
      (¬w.AsksBefore w.entries.identifiers c a → cls.HasSettings w.entries s) ∧
      (w.AsksBefore w.entries.identifiers c a → cls.HasSettings w.entries {}) := by
  obtain ⟨F, always, ok, -, rfl⟩ := resolve_eq_ok.1 h
  have defined : F.contains a := by simpa [find?_wrapEntries] using defined
  have front : ∀ {cls}, F.find? c = some (.cls cls) →
      (w.wrapEntries always F).find? c = some (w.front always c (.cls cls)) := by
    intro cls hc
    rw [find?_wrapEntries, hc]
    rfl
  by_cases asks : w.AsksBefore w.entries.identifiers c a
  · obtain ⟨cls, hc, settings⟩ := (i.madeWith_of_asksBefore ok asks).exists_cls
    exact ⟨_, cls, front hc, core_front .., fun h => absurd asks h, fun _ => settings⟩
  · have made : w.MadeWith c s F := by
      rcases i.madeWith_of_not_asksBefore free asks ok.visits with ⟨absent, -⟩ | ⟨-, made⟩
      · simp [absent] at defined
      · exact made
    obtain ⟨cls, hc, settings⟩ := made.exists_cls
    exact ⟨_, cls, front hc, core_front .., fun _ => settings, fun h => absurd h asks⟩

/-- The settings of the class that a repository is built by. -/
def sqlSettings : ClassSettings where
  scope := .prototype
  parameters := .ofList [("dsn", .value (.text "sql"))]

/-- An application that needs some types, in order. A repository is built by a class, and so is the
locator, which the container satisfies. -/
def repositoryWiring (types : List Identifier) : Wiring where
  config := { container := { interfaces := ["Locator"] } }
  provider := Metadata.provider <| .ofList
    [("App", { parameters := types.map fun id => { name := id, type := some id } }),
      ("SqlRepository", { parameters := [{ name := "dsn", isOptional := true }] }), ("Registry", {})]
  mode := .compile
  entries := ⟨[{ ids := ["App"] }]⟩
  hints :=
    { exact := .ofList [("Locator", .byClass "Registry" { scope := .prototype }),
        ("Repository", .byClass "SqlRepository" sqlSettings)] }

theorem hasSettings_repositoryWiring :
    ∃ g cls, (repositoryWiring ["Repository", "SqlRepository"]).resolveAll = .ok g ∧
      g.contains "Repository" ∧ g.find? "SqlRepository" = some (.cls cls) ∧
      cls.HasSettings (repositoryWiring ["Repository", "SqlRepository"]).entries sqlSettings := by
  let w := repositoryWiring ["Repository", "SqlRepository"]
  have resolves : w.passesWithin 40 ["App"] (fun g => g.contains "Repository" &&
      g.classPasses "SqlRepository" fun c => c.scope = .prototype) = true := by
    decide +kernel
  obtain ⟨g, hg, passes⟩ := exists_of_passesWithin resolves
  obtain ⟨defined, passes⟩ := Bool.and_eq_true_iff.1 passes
  have implements : w.Implements "SqlRepository" "Repository" sqlSettings :=
    ⟨rfl, by decide, by decide, by decide, by decide, by decide⟩
  obtain ⟨d, cls, hd, core, late, early⟩ :=
    hasSettings_of_resolveAll implements (by decide) hg defined
  obtain ⟨cls', hc, scope⟩ := Graph.exists_of_classPasses passes
  cases hd.symm.trans hc
  cases core
  refine ⟨g, cls, hg, defined, hc, late fun asks => ?_⟩
  have : cls.scope = .singleton := (early asks).scope
  simp [this] at scope

/-- An implementation that is asked for first, and one of an identifier that the container
satisfies, do not get the settings of their hints. -/
theorem lacksSettings_repositoryWiring :
    ∃ g, (repositoryWiring ["SqlRepository", "Repository", "Locator", "Registry"]).resolveAll
        = .ok g ∧
      (repositoryWiring ["SqlRepository", "Repository", "Locator", "Registry"]).Implements
        "SqlRepository" "Repository" sqlSettings ∧
      (repositoryWiring ["SqlRepository", "Repository", "Locator", "Registry"]).Implements
        "Registry" "Locator" { scope := .prototype } ∧
      g.contains "Repository" ∧ g.contains "Locator" ∧
      (∃ c, g.find? "SqlRepository" = some (.cls c) ∧ c.scope = .singleton ∧
        c.overriddenParameters.find? "dsn" = none) ∧
      ∃ c, g.find? "Registry" = some (.cls c) ∧ c.scope = .singleton := by
  let w := repositoryWiring ["SqlRepository", "Repository", "Locator", "Registry"]
  have resolves : w.passesWithin 60 ["App"] (fun g =>
      (g.contains "Repository" && g.contains "Locator") &&
      ((g.classPasses "SqlRepository" fun c =>
        c.scope = .singleton && c.overriddenParameters.find? "dsn" = none) &&
      g.classPasses "Registry" fun c => c.scope = .singleton)) = true := by
    decide +kernel
  obtain ⟨g, hg, passes⟩ := exists_of_passesWithin resolves
  simp only [Bool.and_eq_true] at passes
  obtain ⟨⟨repository, locator⟩, sql, registry⟩ := passes
  obtain ⟨c, hc, settings⟩ := Graph.exists_of_classPasses sql
  obtain ⟨c', hc', scope⟩ := Graph.exists_of_classPasses registry
  have implements : w.Implements "SqlRepository" "Repository" sqlSettings :=
    ⟨rfl, by decide, by decide, by decide, by decide, by decide⟩
  have implements' : w.Implements "Registry" "Locator" { scope := .prototype } :=
    ⟨rfl, by decide, by decide, by decide, by decide, by decide⟩
  simp only [Bool.and_eq_true, decide_eq_true_eq] at settings scope
  exact ⟨g, hg, implements, implements', repository, locator, ⟨c, hc, settings⟩, c', hc', scope⟩

end Injector
