import Injector.Proofs.Resolution.History
import Injector.Proofs.Resolution.Implementation
import Injector.Proofs.Resolution.Members
import Mathlib.Data.List.Forall2

/-!
# Overrides of entry points

The overrides of an entry point are for the classes of the identifiers that it covers. If such an
identifier is defined as a class, they are given to its parameters, and names of other parameters
are reported. If a hint takes the identifier elsewhere, they have no effect at all: the class that
it leads to goes by hints and by the entry point that covers this very class.
-/

namespace Injector

/-! ### Settings that hints have -/

/-- Settings that a class can get without its entry point: none, those of a hint that names it, or
those together with the ones of its own hint. -/
inductive HintTable.Offers (hints : HintTable) (cls : Identifier) : ClassSettings → Prop
  | plain : Offers hints cls {}
  | named {id : Identifier} {h : Hint} (found : hints.find? id = some h)
      (target : cls ∈ h.targets id) : Offers hints cls h.settings
  | merged {id : Identifier} {h : Hint} {own : ClassSettings} (found : hints.find? id = some h)
      (target : cls ∈ h.targets id) (hinted : hints.ownSettings? cls = some own) :
      Offers hints cls (own.override h.settings)

section Offers

variable {entries : EntryPoints} {hints : HintTable} {id cls k : Identifier} {h : Hint}
  {placed : Bool} {c : ClassDefinition} (found : hints.find? id = some h)
include found

/-- What a hint defines for a class that it names has settings of hints. -/
lemma offers_of_implementation? (target : cls ∈ h.targets id)
    (he : implementation? entries hints cls h.settings placed = some (k, .cls c)) :
    ∃ s, hints.Offers k s ∧ c = classDefinition entries k s placed := by
  rw [implementation?_eq] at he
  split at he
  · cases he
    cases own : hints.ownSettings? cls with
    | none => exact ⟨_, .named found target, rfl⟩
    | some s => exact ⟨_, .merged found target own, rfl⟩
  · cases he

lemma offers_of_mem_classBinding (target : h.targets id = [cls])
    (he : (k, .cls c) ∈ classBinding entries hints id cls h.settings placed) :
    ∃ s, hints.Offers k s ∧ c = classDefinition entries k s placed := by
  have named : cls ∈ h.targets id := by simp [target]
  simp only [classBinding] at he
  split at he
  · next self =>
    cases List.mem_singleton.1 he
    exact ⟨_, .named found (self ▸ named), rfl⟩
  · rcases List.mem_cons.1 he with he | he
    · cases he
    · exact offers_of_implementation? found named (Option.mem_toList.1 he)

/-- The classes that a hint defines have settings of hints. -/
lemma offers_of_definitions {ds : List (Identifier × Definition)}
    (defines : h.definitions entries hints id placed = .ok ds) (he : (k, .cls c) ∈ ds) :
    ∃ s, hints.Offers k s ∧ c = classDefinition entries k s placed := by
  cases h with
  | exact b =>
    cases b with
    | byClass cls s =>
      cases defines
      exact offers_of_mem_classBinding (h := .exact (.byClass cls s)) found rfl he
    | perConsumer t =>
      cases defines
      rcases List.mem_cons.1 he with he | he
      · cases he
      · obtain ⟨cls, target, hi⟩ := List.mem_filterMap.1 he
        exact offers_of_implementation? (h := .exact (.perConsumer t)) found target hi
  | wildcard hint =>
    simp only [Hint.definitions] at defines
    split at defines
    · next cls target =>
      cases defines
      exact offers_of_mem_classBinding (h := .wildcard hint) found
        (by rw [Hint.targets, target]; rfl) he
    · cases defines

end Offers

namespace Wiring

variable {w : Wiring} {roots : List Identifier} {g g' : Graph}

/-! ### What identifiers are defined as -/

/-- What an identifier is defined as: a class with settings of hints and the overrides of the entry
point that covers it, or what a hint for the identifier makes of it. -/
inductive Configures (w : Wiring) (k : Identifier) : Definition → Prop
  | cls {s : ClassSettings} (offers : w.hints.Offers k s) (placed : Bool) :
      Configures w k (.cls (classDefinition w.entries k s placed))
  | hinted {d : Definition} (found : (w.hints.find? k).isSome) (other : ∀ c, d ≠ .cls c) :
      Configures w k d

lemma shape_classDefinition (entries : EntryPoints) (cls : Identifier) (s : ClassSettings)
    (placed : Bool) : (Definition.cls (classDefinition entries cls s placed)).shape =
      .cls (classDefinition entries cls s placed) := by
  simp only [Definition.shape, classDefinition]
  cases entries.find? cls <;> rfl

lemma Configures.shape {k : Identifier} {d : Definition} (h : w.Configures k d) :
    w.Configures k d.shape := by
  cases h with
  | cls offers placed =>
    rw [shape_classDefinition]
    exact .cls offers placed
  | hinted found other =>
    refine .hinted found fun c shape => ?_
    obtain ⟨c', rfl, -⟩ := Definition.eq_cls_of_shape_eq shape
    exact other c' rfl

/-- A class is configured as one. -/
lemma Configures.exists_offers {k : Identifier} {c : ClassDefinition}
    (h : w.Configures k (.cls c)) :
    ∃ s placed, w.hints.Offers k s ∧ c = classDefinition w.entries k s placed := by
  generalize hd : Definition.cls c = d at h
  cases h with
  | @cls s offers placed => exact ⟨s, placed, offers, Definition.cls.inj hd⟩
  | hinted found other => exact absurd hd.symm (other c)

/-- What a hint makes of an identifier, and of the classes besides, is configured. -/
lemma configures_of_mem_inlined {id : Identifier} {hint : Hint} {placed : Bool}
    {ds : List (Identifier × Definition)} (found : w.hints.find? id = some hint)
    (defines : hint.definitions w.entries w.hints id placed = .ok ds) {k : Identifier}
    {d : Definition} (mem : (k, d) ∈ w.inlined ds) : w.Configures k d := by
  cases d with
  | cls c =>
    obtain ⟨d', hd', rfl | cleared⟩ := mem_inlined mem
    · obtain ⟨s, offers, rfl⟩ := offers_of_definitions (k := k) found defines hd'
      exact .cls offers placed
    · cases d' with
      | cls c' =>
        obtain ⟨s, offers, rfl⟩ := offers_of_definitions (k := k) found defines hd'
        rw [clearPlacement_classDefinition] at cleared
        obtain rfl := Definition.cls.inj cleared
        exact .cls offers false
      | «alias» | container | perConsumer | autoloaded => cases cleared
  | «alias» | container | perConsumer | autoloaded =>
    obtain ⟨first, rest, hi, unfolds⟩ := unfolds_definitions found defines
    rw [hi] at mem
    rcases List.mem_cons.1 mem with new | new
    · cases new
      exact .hinted (by simp [found]) nofun
    · obtain ⟨c, hc⟩ := unfolds.classes _ new
      cases hc

lemma configures_of_define {id : Identifier} {consumer : Option Identifier} {placed : Bool}
    {next : List Task} (done : w.define g id consumer placed = .ok (g', next)) {k : Identifier}
    {d : Definition} (hk : g'.find? k = some d) : g.find? k = some d ∨ w.Configures k d := by
  rcases definitions_of_define done with ⟨hint, ds, found, hd, rfl, -⟩ | ⟨-, rfl, -⟩
  · obtain ⟨first, rest, hi, unfolds⟩ := unfolds_definitions found hd
    rw [hi, Graph.find?_insertAll g unfolds.keyed] at hk
    rcases Option.or_eq_some_iff.1 hk with hk | ⟨-, hk⟩
    · exact .inl hk
    · exact .inr (configures_of_mem_inlined found hd (hi ▸ mem_of_lookup hk))
  · rw [Graph.find?_insertIfAbsent] at hk
    split at hk
    · next same =>
      obtain rfl : k = id := same.trans (id_classDefinition ..)
      cases before : g.find? k with
      | some d =>
        rw [before] at hk
        exact .inl hk
      | none =>
        rw [before] at hk
        cases hk
        exact .inr (.cls .plain _)
    · exact .inl hk

/-- What is defined besides the container and its interfaces is configured. -/
def Configured (w : Wiring) (g : Graph) : Prop :=
  ∀ k s, g.shape? k = some s → (seed w.config).shape? k = some s ∨ w.Configures k s

lemma Configured.perform (configured : w.Configured g) {t : Task} {next : List Task}
    (done : w.perform g t = .ok (g', next)) : w.Configured g' := by
  intro k s hk
  rcases shape?_of_perform done with ⟨id, consumer, placed, -, -, done⟩ | same
  · obtain ⟨d, hd, rfl⟩ := Graph.exists_find?_of_shape? hk
    rcases configures_of_define done hd with before | new
    · exact configured k _ (Graph.shape?_of_find? before)
    · exact .inr new.shape
  · exact configured k s ((same k).symm.trans hk)

lemma configured_of_visits {ts : List Task} (v : w.Visits roots g ts) : w.Configured g := by
  refine v.preserves (P := fun h _ => w.Configured h) ?_ fun before done => before.perform done
  intro k s hk
  rw [Graph.shape?, find?_start] at hk
  exact .inl hk

/-- A class has the overrides of the entry point that covers it, and else those of hints. -/
lemma exists_hasSettings {ts : List Task} (v : w.Visits roots g ts) {k : Identifier}
    {c : ClassDefinition} (hk : g.find? k = some (.cls c)) :
    ∃ s, w.hints.Offers k s ∧ c.HasSettings w.entries s := by
  rcases configured_of_visits v k _ (Graph.shape?_of_find? hk) with seeded | configures
  · obtain ⟨d, hd, shape⟩ := Graph.exists_find?_of_shape? seeded
    obtain ⟨c', rfl, -⟩ := Definition.eq_cls_of_shape_eq shape
    exact absurd ((find?_start w roots k).trans hd) (find?_start_ne_cls w roots k c')
  · obtain ⟨s, placed, offers, shape⟩ := configures.exists_offers
    exact ⟨s, offers, (hasSettings_classDefinition w.entries k s placed).of_shape_eq shape⟩

/-- An identifier without a hint is a class, unless it is the container. -/
lemma exists_cls_of_unhinted {ts : List Task} (v : w.Visits roots g ts) {k : Identifier}
    {d : Definition} (hk : g.find? k = some d) (free : ¬w.config.IsContainer k)
    (unhinted : w.hints.find? k = none) : ∃ c, d = .cls c := by
  rcases configured_of_visits v k _ (Graph.shape?_of_find? hk) with seeded | configures
  · obtain ⟨d', hd', -⟩ := Graph.exists_find?_of_shape? seeded
    have fresh : (w.start roots).find? k = none := find?_start_of_not_isContainer free
    rw [find?_start, hd'] at fresh
    cases fresh
  · generalize hs : d.shape = s at configures
    cases configures with
    | cls =>
      obtain ⟨c, rfl, -⟩ := Definition.eq_cls_of_shape_eq hs
      exact ⟨c, rfl⟩
    | hinted found =>
      rw [unhinted] at found
      cases found

end Wiring

/-! ### Overrides that are taken -/

/-- A parameter with an override gets this. -/
lemma Parameter.Gets.eq_source {overrides : Overrides} {p : Parameter} {source : Source}
    (gets : p.Gets overrides source) {value : OverrideValue}
    (found : overrides.find? p.name = some value) : source = value.source := by
  cases gets with
  | overridden found' => rw [Option.some.inj (found'.symm.trans found)]
  | optional absent => cases absent.symm.trans found
  | injected absent => cases absent.symm.trans found

lemma exists_of_forall₂ {α β : Type} {R : α → β → Prop} {l : List α} {l' : List β}
    (h : List.Forall₂ R l l') {a : α} (ha : a ∈ l) : ∃ b ∈ l', R a b := by
  induction h with
  | nil => cases ha
  | @cons x y _ _ head _ ih =>
    rcases List.mem_cons.1 ha with rfl | ha
    · exact ⟨y, List.mem_cons_self, head⟩
    · obtain ⟨b, hb, related⟩ := ih ha
      exact ⟨b, List.mem_cons_of_mem y hb, related⟩

namespace Wiring

variable {w : Wiring}

/-- Overrides that a class has are for parameters that it has, and these get them. -/
def Takes (w : Wiring) (c : ClassDefinition) (overrides : Overrides) : Prop :=
  ∃ ps, w.provider.parameters c.id = .ok ps ∧ ∀ name value, overrides.find? name = some value →
    name ∈ ps.map (·.name) ∧ (∃ a ∈ c.arguments, a.name = name) ∧
      ∀ a ∈ c.arguments, a.name = name → a.source = value.source

/-- A class takes the overrides that it was made with. -/
lemma Images.takes {c : ClassDefinition} (images : w.Images c)
    (enabled : w.config.injection.constructor = true) {overrides : Overrides}
    (has : ∀ name value, overrides.find? name = some value →
      c.overriddenParameters.find? name = some value) : w.Takes c overrides := by
  obtain ⟨ps, hps, corresponds, known⟩ := images.arguments enabled
  refine ⟨ps, hps, fun name value found => ?_⟩
  have overridden := has name value found
  have parameter : name ∈ ps.map (·.name) :=
    known name ((Table.mem_keys_iff _ _).2 (by simp [Table.contains, overridden]))
  refine ⟨parameter, ?_, ?_⟩
  · obtain ⟨p, hp, rfl⟩ := List.mem_map.1 parameter
    rw [← List.zipIdx_map_fst 0 ps] at hp
    obtain ⟨e, he, rfl⟩ := List.mem_map.1 hp
    obtain ⟨a, ha, -, named, -⟩ := exists_of_forall₂ corresponds he
    exact ⟨a, ha, named⟩
  · intro a ha named
    obtain ⟨e, -, -, same, gets⟩ := exists_of_forall₂ corresponds.flip ha
    exact gets.eq_source (same ▸ named ▸ overridden)

end Wiring

/-! ### Other overrides for the same entry points -/

namespace EntryPoints

/-- The same entry points with other overrides for parameters. -/
def overriding (entries : EntryPoints) (o : EntryPoint → Overrides) : EntryPoints :=
  ⟨entries.entries.map fun e => { e with parameters := o e }⟩

variable (entries : EntryPoints) (o : EntryPoint → Overrides)

lemma find?_overriding (id : Identifier) : (entries.overriding o).find? id =
    (entries.find? id).map fun e => { e with parameters := o e } :=
  List.find?_map ..

lemma contains_overriding (id : Identifier) :
    (entries.overriding o).contains id = entries.contains id := by
  simp [contains, find?_overriding]

lemma identifiers_overriding : (entries.overriding o).identifiers = entries.identifiers := by
  simp [identifiers, overriding, List.flatMap_map]

/-- The entry point that covers an identifier, if any, keeps its overrides. -/
def Keeps (id : Identifier) : Prop := ∀ e, entries.find? id = some e → o e = e.parameters

end EntryPoints

section Overriding

variable {entries : EntryPoints} {o : EntryPoint → Overrides} {hints : HintTable}
  {id cls : Identifier} {s : ClassSettings} {placed : Bool}

lemma classDefinition_overriding (keeps : entries.Keeps o cls) :
    classDefinition (entries.overriding o) cls s placed = classDefinition entries cls s placed := by
  simp only [classDefinition, entries.find?_overriding]
  cases h : entries.find? cls with
  | none => rfl
  | some e => simp [keeps e h]

/-- Definitions for the same entry points with other overrides: the same ones, or classes with the
same settings. -/
inductive Alike (entries : EntryPoints) (o : EntryPoint → Overrides) :
    Identifier × Definition → Identifier × Definition → Prop
  | same (e : Identifier × Definition) : Alike entries o e e
  | cls (cls : Identifier) (s : ClassSettings) (placed : Bool) : Alike entries o
      (cls, .cls (classDefinition entries cls s placed))
      (cls, .cls (classDefinition (entries.overriding o) cls s placed))

lemma alike_implementations (classes : List Identifier) : List.Forall₂ (Alike entries o)
    (classes.filterMap fun cls => implementation? entries hints cls s placed)
    (classes.filterMap fun cls => implementation? (entries.overriding o) hints cls s placed) := by
  induction classes with
  | nil => exact .nil
  | cons cls classes ih =>
    rw [List.filterMap_cons, List.filterMap_cons, implementation?_eq, implementation?_eq]
    cases hints.leavesAlone cls with
    | true => exact .cons (.cls ..) ih
    | false => exact ih

lemma alike_classBinding : List.Forall₂ (Alike entries o)
    (classBinding entries hints id cls s placed)
    (classBinding (entries.overriding o) hints id cls s placed) := by
  -- one class is a list of classes with one member
  have single : ∀ entries, (implementation? entries hints cls s placed).toList =
      [cls].filterMap fun cls => implementation? entries hints cls s placed := by
    intro entries
    cases h : implementation? entries hints cls s placed <;> simp [h]
  simp only [classBinding, entries.contains_overriding, single]
  split
  · exact .cons (.cls ..) .nil
  · exact .cons (.same _) (alike_implementations [cls])

/-- A hint makes definitions that are alike. -/
lemma exists_alike_definitions {h : Hint} {ds : List (Identifier × Definition)}
    (defines : h.definitions entries hints id placed = .ok ds) :
    ∃ ds', h.definitions (entries.overriding o) hints id placed = .ok ds' ∧
      List.Forall₂ (Alike entries o) ds ds' := by
  cases h with
  | exact b =>
    cases b with
    | byClass cls s =>
      cases defines
      exact ⟨_, rfl, alike_classBinding⟩
    | perConsumer t =>
      cases defines
      refine ⟨_, rfl, ?_⟩
      simp only [contextBinding, entries.contains_overriding]
      exact .cons (.same _) (alike_implementations t.classes)
  | wildcard hint =>
    simp only [Hint.definitions] at defines ⊢
    split at defines
    · cases defines
      exact ⟨_, rfl, alike_classBinding⟩
    · cases defines

lemma alike_inlined {w : Wiring} {ds ds' : List (Identifier × Definition)}
    (alike : List.Forall₂ (Alike entries o) ds ds') :
    List.Forall₂ (Alike entries o) (w.inlined ds) (w.inlined ds') := by
  induction alike with
  | nil => exact .nil
  | @cons e e' _ _ head _ ih =>
    refine .cons ?_ ih
    cases head with
    | same => exact .same _
    | cls cls s placed =>
      dsimp only
      split
      · rw [Wiring.clearPlacement_classDefinition, Wiring.clearPlacement_classDefinition]
        exact .cls ..
      · exact .cls ..

lemma find?_insertIfAbsent_classDefinition {g : Graph} (absent : g.find? cls = none) :
    (g.insertIfAbsent (.cls (classDefinition entries cls s placed))).find? cls =
      some (.cls (classDefinition entries cls s placed)) := by
  simp [Graph.find?_insertIfAbsent, absent, Definition.id]

/-- Definitions that are alike are inserted alike, if the entry points of the classes that come of
it keep their overrides. -/
lemma insertAll_of_alike {ds ds' : List (Identifier × Definition)}
    (alike : List.Forall₂ (Alike entries o) ds ds') (keyed : ∀ e ∈ ds, e.2.id = e.1) {g : Graph}
    (keeps : ∀ k c, (g.insertAll ds).1.find? k = some (.cls c) → entries.Keeps o k) :
    g.insertAll ds' = g.insertAll ds := by
  induction alike generalizing g with
  | nil => rfl
  | @cons e e' ds ds' head _ ih =>
    have keyed' : ∀ e ∈ ds, e.2.id = e.1 := fun e he => keyed e (List.mem_cons_of_mem _ he)
    by_cases defined : g.contains e.2.id
    · have same : e'.2.id = e.2.id := by
        cases head with
        | same => rfl
        | cls cls s placed => simp only [Definition.id, id_classDefinition]
      have defined' : g.contains e'.2.id := same ▸ defined
      simp only [Graph.insertAll, if_pos defined] at keeps
      simp only [Graph.insertAll, if_pos defined, if_pos defined', ih keyed' keeps]
    · simp only [Graph.insertAll, if_neg defined] at keeps
      -- what is inserted is never replaced, so its entry point is one of those that keep theirs
      have new : e' = e := by
        cases head with
        | same => rfl
        | cls cls s placed =>
          have made : ((g.insertIfAbsent (.cls (classDefinition entries cls s placed))).insertAll
              ds).1.find? cls = some (.cls (classDefinition entries cls s placed)) := by
            have absent : g.find? cls = none := by
              simpa [Definition.id] using defined
            rw [Graph.find?_insertAll _ keyed', find?_insertIfAbsent_classDefinition absent]
            rfl
          rw [classDefinition_overriding (keeps _ _ made)]
      simp only [Graph.insertAll, new, if_neg defined, ih keyed' keeps]

end Overriding

namespace Wiring

/-- A wiring whose entry points have other overrides for parameters. -/
def overriding (w : Wiring) (o : EntryPoint → Overrides) : Wiring :=
  { w with entries := w.entries.overriding o }

variable {w : Wiring} {roots : List Identifier} {g g' : Graph} {o : EntryPoint → Overrides}

lemma define_overriding {id : Identifier} {consumer : Option Identifier} {placed : Bool}
    {next : List Task} (absent : g.find? id = none)
    (done : w.define g id consumer placed = .ok (g', next))
    (keeps : ∀ k c, g'.find? k = some (.cls c) → w.entries.Keeps o k) :
    (w.overriding o).define g id consumer placed = .ok (g', next) := by
  rcases definitions_of_define done with ⟨hint, ds, found, hd, rfl, rfl⟩ | ⟨unhinted, rfl, rfl⟩
  · obtain ⟨ds', hd', alike⟩ := exists_alike_definitions (o := o) hd
    obtain ⟨d, rest, hi, unfolds⟩ := unfolds_definitions found hd
    have same : g.insertAll ((w.overriding o).inlined ds') = g.insertAll (w.inlined ds) :=
      insertAll_of_alike (alike_inlined alike) (hi ▸ unfolds.keyed) keeps
    have found' : (w.overriding o).hints.find? id = some hint := found
    rw [define_of_hint g consumer found' hd', same]
  · have made : w.entries.Keeps o id :=
      keeps id _ (find?_insertIfAbsent_classDefinition absent)
    have own : ∀ here, (w.overriding o).ownDefinition id here = w.ownDefinition id here :=
      fun here => classDefinition_overriding made
    have unhinted' : (w.overriding o).hints.find? id = none := unhinted
    simp only [define, unhinted', own]
    rfl

lemma perform_overriding {t : Task} {next : List Task} (done : w.perform g t = .ok (g', next))
    (keeps : ∀ k c, g'.find? k = some (.cls c) → w.entries.Keeps o k) :
    (w.overriding o).perform g t = .ok (g', next) := by
  cases t with
  | request id consumer placed =>
    cases defined : g.find? id with
    | none =>
      simp only [perform, defined] at done ⊢
      exact define_overriding defined done keeps
    | some d =>
      simp only [perform, defined] at done ⊢
      cases d with
      | cls c => exact done
      | «alias» | container | perConsumer | autoloaded => exact done
  | check | count | discoverFields | complete | fail => exact done

lemma rootTask_overriding (id : Identifier) : (w.overriding o).rootTask id = w.rootTask id := by
  have same : ((w.overriding o).entries.find? id).any (w.overriding o).placesBelow =
      (w.entries.find? id).any w.placesBelow := by
    simp only [overriding, EntryPoints.find?_overriding, Option.any_map]
    rfl
  rw [rootTask, same, rootTask]

/-- The overrides of entry points that cover no class of a graph are of no account for it. -/
lemma Yields.overriding (yields : w.Yields roots g)
    (keeps : ∀ k c, g.find? k = some (.cls c) → w.entries.Keeps o k) :
    (w.overriding o).Yields roots g := by
  have tasks : roots.map (w.overriding o).rootTask = roots.map w.rootTask :=
    List.map_congr_left fun id _ => rootTask_overriding id
  have last : (w.overriding o).Visits roots g [] := by
    rw [Visits, tasks]
    apply yields.visits.congr
    intro h t rest v later
    obtain ⟨h', next, done, -⟩ := v.exists_perform yields
    -- a class that a task makes is a class of the graph in the end
    refine (perform_overriding done ?_).trans done.symm
    intro k c hk
    obtain ⟨c', hc', -⟩ := (yields.keeps (v.step done)).find?_cls hk
    exact keeps k c' hc'
  rw [Yields, ← last.run_eq, run_nil]

lemma wrappedEntries_overriding : (w.overriding o).wrappedEntries = w.wrappedEntries := by
  simp only [wrappedEntries, overriding, EntryPoints.overriding, List.flatMap_map]

lemma resolveAll_overriding (h : w.resolveAll = .ok g)
    (keeps : ∀ k d c, g.find? k = some d → d.core = .cls c → w.entries.Keeps o k) :
    (w.overriding o).resolveAll = .ok g := by
  have h : w.resolve w.entries.identifiers = .ok g := h
  obtain ⟨F, units, yields, activated, rfl⟩ := resolve_eq_ok.1 h
  have same : (w.overriding o).entries.identifiers = w.entries.identifiers :=
    w.entries.identifiers_overriding o
  rw [resolveAll, same]
  apply resolve_eq_ok.2
  refine ⟨F, units, yields.overriding fun k c hk => ?_, activated, ?_⟩
  · refine keeps k (w.front units k (.cls c)) c ?_ (core_front ..)
    rw [find?_wrapEntries, hk, Option.map_some]
  · rw [wrapEntries, wrappedEntries_overriding, wrapEntries]

/-! ### What becomes of overrides -/

/-- A run that comes to give up fails. -/
lemma resolve_of_leads_fail {h : Graph} {e : Error} {rest : List Task}
    (v : w.Visits roots h (.fail e :: rest)) : w.resolve roots = .error e := by
  have outcome : w.run (w.start roots) (roots.map w.rootTask) = some (.error e) :=
    v.run_eq.symm.trans (run_of_perform_error rfl rest)
  rw [resolve, outcome]
  rfl

/-- A class that has no parameter for one of its overrides is reported once its parameters are
done. -/
lemma resolve_of_unknown {h : Graph} {rest : List Task} {consumer : Option Identifier}
    {placed : Bool} {c : ClassDefinition} {source : Option String} {ps : List Parameter}
    {name : String} (v : w.Visits roots h (.request c.id consumer placed :: rest))
    (enabled : w.config.injection.constructor = true) (hc : h.find? c.id = some (.cls c))
    (pending : c.progress = .pending) (answer : w.provider.sourceUnit c.id = .ok source)
    (hps : w.provider.parameters c.id = .ok ps) (has : c.overriddenParameters.contains name)
    (unknown : name ∉ ps.map (·.name))
    (members : w.Leads (h.adjust c.id Definition.begun) (ps.flatMap fun p =>
      memberTasks c .parameter placed p.name (p.source? c.overriddenParameters)) g []) :
    ∃ names, name ∈ names ∧
      w.resolve roots = .error (.unknownOverrides c.id .parameter names) := by
  have mem : name ∈ unknownNames c.overriddenParameters (ps.map (·.name)) :=
    List.mem_filter.2 ⟨(Table.mem_keys_iff _ _).2 has, decide_eq_true unknown⟩
  refine ⟨_, mem, ?_⟩
  have gives : overrideTasks c .parameter c.overriddenParameters (ps.map (·.name)) =
      [.fail (.unknownOverrides c.id .parameter
        (unknownNames c.overriddenParameters (ps.map (·.name))))] := by
    rw [overrideTasks]
    cases names : unknownNames c.overriddenParameters (ps.map (·.name)) with
    | nil =>
      rw [names] at mem
      cases mem
    | cons => rfl
  have done : ∃ later, w.perform h (.request c.id consumer placed) =
      .ok (h.adjust c.id Definition.begun, parameterTasks c placed ps ++ later) := by
    simp only [perform, hc, if_pos pending, discover, parametersOf, if_pos enabled, answer, hps]
    exact ⟨_, rfl⟩
  obtain ⟨later, done⟩ := done
  have begun := v.step done
  rw [parameterTasks, gives, List.append_assoc, List.append_assoc] at begun
  exact resolve_of_leads_fail (begun.trans (members.append _))

/-- What becomes of the overrides of entry points. -/
structure TreatsOverrides (w : Wiring) : Prop where
  /-- An entry point that is a class takes them, and it is a class unless there is a hint for it. -/
  applied : ∀ {g id e}, w.resolveAll = .ok g → w.config.injection.constructor = true →
    w.entries.find? id = some e → ¬w.config.IsContainer id →
    ∃ d, g.find? id = some d ∧ (w.hints.find? id = none → ∃ c, d.core = .cls c) ∧
      ∀ c, d.core = .cls c → c.id = id ∧ w.Takes c e.parameters
  /-- Such a class that has no parameter for one of them is reported after its parameters. -/
  reported : ∀ {h rest consumer placed c e source ps name g},
    w.Visits w.entries.identifiers h (.request c.id consumer placed :: rest) →
    w.config.injection.constructor = true → h.find? c.id = some (.cls c) → c.progress = .pending →
    w.entries.find? c.id = some e → w.provider.sourceUnit c.id = .ok source →
    w.provider.parameters c.id = .ok ps → e.parameters.contains name → name ∉ ps.map (·.name) →
    w.Leads (h.adjust c.id Definition.begun)
      (ps.flatMap fun p => memberTasks c .parameter placed p.name
        (p.source? c.overriddenParameters)) g [] →
    ∃ unknown, name ∈ unknown ∧ w.resolveAll = .error (.unknownOverrides c.id .parameter unknown)
  /-- A class that a hint leads to goes by hints and by the entry point that covers the class. -/
  elsewhere : ∀ {g k d c}, w.resolveAll = .ok g → g.find? k = some d → d.core = .cls c →
    ∃ s, w.hints.Offers k s ∧ c.HasSettings w.entries s
  /-- So it is all one which overrides the entry points have that cover no class of the graph. -/
  dropped : ∀ {g o}, w.resolveAll = .ok g →
    (∀ k d c, g.find? k = some d → d.core = .cls c → w.entries.Keeps o k) →
    (w.overriding o).resolveAll = .ok g

/-- Entry points that are classes take their overrides, or the first one without a parameter is
reported. Those of other entry points are dropped. -/
theorem treatsOverrides (w : Wiring) : w.TreatsOverrides where
  applied {g id e} h enabled covered free := by
    have h : w.resolve w.entries.identifiers = .ok g := h
    obtain ⟨F, units, yields, -, rfl⟩ := resolve_eq_ok.1 h
    have declared : id ∈ w.entries.identifiers :=
      EntryPoints.mem_identifiers.2 (by simp [EntryPoints.contains, covered])
    obtain ⟨d, hd⟩ := Option.isSome_iff_exists.1 ((yields.settled_root declared).1)
    have hd : F.find? id = some d := hd
    refine ⟨w.front units id d, by rw [find?_wrapEntries, hd, Option.map_some], ?_, ?_⟩
    · intro unhinted
      obtain ⟨c, rfl⟩ := exists_cls_of_unhinted yields.visits hd free unhinted
      exact ⟨c, core_front ..⟩
    · intro c core
      have hc : F.find? id = some (.cls c) := by
        have wrapped : (w.wrapEntries units F).find? id = some (w.front units id d) := by
          rw [find?_wrapEntries, hd, Option.map_some]
        exact core ▸ yields.find?_core wrapped
      have keyed : c.id = id := yields.original.id_eq hc
      obtain ⟨s, -, settings⟩ := exists_hasSettings yields.visits hc
      refine ⟨keyed, (yields.images hc).takes enabled fun name value found => ?_⟩
      rw [settings.parameters, keyed, covered, Option.bind_some, found, Option.some_or]
  reported v enabled hc pending covered answer hps has unknown members := by
    obtain ⟨s, -, settings⟩ := exists_hasSettings v hc
    refine resolve_of_unknown v enabled hc pending answer hps ?_ unknown members
    obtain ⟨value, found⟩ := Option.isSome_iff_exists.1 has
    rw [Table.contains, settings.parameters, covered, Option.bind_some, found]
    rfl
  elsewhere h hk hc := by
    obtain ⟨F, units, yields, -, rfl⟩ := resolve_eq_ok.1 h
    exact exists_hasSettings yields.visits (hc ▸ yields.find?_core hk)
  dropped h keeps := resolveAll_overriding h keeps

/-- A job at some interval that needs a clock, which is a system clock in some zone. -/
def zoneWiring (entries : List EntryPoint) : Wiring where
  config := {}
  provider := Metadata.provider <| .ofList
    [("Job", { parameters := [{ name := "interval", isOptional := true },
        { name := "clock", type := some "Clock" }] }),
      ("SystemClock", { parameters := [{ name := "zone", isOptional := true }] })]
  mode := .compile
  entries := ⟨entries⟩
  hints := ⟨.ofList [("Clock", .byClass "SystemClock" {})], []⟩

/-- The clock and the job as entry points, with some overrides for the clock. -/
def zonedEntries (overrides : Overrides) : List EntryPoint :=
  [{ ids := ["Clock"], parameters := overrides },
    { ids := ["Job"], parameters := .ofList [("interval", .value (.integer 5))] }]

/-- The system clock as an entry point, with an override that it has no parameter for. -/
def misspeltEntries : List EntryPoint :=
  [{ ids := ["SystemClock"], parameters := .ofList [("zne", .value (.text "utc"))] }]

/-- The job takes its interval, but for the clock any overrides will do. A system clock that is an
entry point itself has no parameter of a misspelt name. -/
theorem treatsOverrides_zoneWiring :
    (∃ g d c, (zoneWiring (zonedEntries .empty)).resolveAll = .ok g ∧ g.find? "Job" = some d ∧
      d.core = .cls c ∧ (zoneWiring (zonedEntries .empty)).Takes c
        (.ofList [("interval", .value (.integer 5))]) ∧
      ∀ overrides, (zoneWiring (zonedEntries overrides)).resolveAll = .ok g) ∧
    ∃ unknown, "zne" ∈ unknown ∧ (zoneWiring misspeltEntries).resolveAll =
      .error (.unknownOverrides "SystemClock" .parameter unknown) := by
  constructor
  · have resolves : (zoneWiring (zonedEntries .empty)).passesWithin 40 ["Clock", "Job"] (fun g =>
        g.definitions.entries.all fun e => e.2.core.kind = "class" → e.1 ≠ "Clock") = true := by
      decide +kernel
    obtain ⟨g, hg, classes⟩ := exists_of_passesWithin resolves
    have h : (zoneWiring (zonedEntries .empty)).resolveAll = .ok g := hg
    have treats := treatsOverrides (zoneWiring (zonedEntries .empty))
    have covered : (zoneWiring (zonedEntries .empty)).entries.find? "Job" =
        some { ids := ["Job"], parameters := .ofList [("interval", .value (.integer 5))] } := rfl
    obtain ⟨d, hd, isClass, takes⟩ := treats.applied h rfl covered (by decide)
    obtain ⟨c, hc⟩ := isClass (by decide)
    refine ⟨g, d, c, h, hd, hc, (takes c hc).2, fun overrides => ?_⟩
    refine treats.dropped
      (o := fun e => if e.ids = ["Clock"] then overrides else e.parameters) h ?_
    intro k d c hk hc e he
    refine if_neg fun clock => ?_
    have covers : k ∈ e.ids := by simpa using List.find?_some he
    rw [clock, List.mem_singleton] at covers
    have kind : d.core.kind = "class" := hc ▸ rfl
    exact of_decide_eq_true (List.all_eq_true.1 classes (k, d)
      ((g.definitions.mem_entries_iff_find? k d).2 hk)) kind covers
  · let w := zoneWiring misspeltEntries
    let c := w.ownDefinition "SystemClock" false
    have asked : w.Visits ["SystemClock"] (w.start ["SystemClock"])
      [.request "SystemClock" none false] := .refl
    have done : w.perform (w.start ["SystemClock"]) (.request "SystemClock" none false) =
      .ok ((w.start ["SystemClock"]).insertIfAbsent (.cls c),
        [.request "SystemClock" none false]) := rfl
    have made : w.Visits w.entries.identifiers
      ((w.start ["SystemClock"]).insertIfAbsent (.cls c)) [.request c.id none false] :=
        asked.step done
    have covered : w.entries.find? "SystemClock" =
      some { ids := ["SystemClock"], parameters := .ofList [("zne", .value (.text "utc"))] } := rfl
    have present : ((w.start ["SystemClock"]).insertIfAbsent (.cls c)).find? c.id =
      some (.cls c) := find?_insertIfAbsent_classDefinition rfl
    exact (treatsOverrides w).reported made rfl present rfl covered rfl rfl rfl (by decide) .refl

/-- The entry point for a clock gives it a zone. The clock leads to a system clock, which no entry
point covers; it has a zone, but not this one. -/
theorem dropsZone_zoneWiring :
    ∃ (w : Wiring) (e : EntryPoint) (g : Graph) (c : ClassDefinition),
      w = zoneWiring (zonedEntries (.ofList [("zone", .value (.text "utc"))])) ∧
      w.config.injection.constructor = true ∧ ¬w.config.IsContainer "Clock" ∧
      w.entries.find? "Clock" = some e ∧ e.parameters.find? "zone" = some (.value (.text "utc")) ∧
      ¬w.entries.contains "SystemClock" ∧ w.resolveAll = .ok g ∧
      g.target? (some "Clock") "Clock" = .ok (.factory "SystemClock") ∧
      g.find? "SystemClock" = some (.cls c) ∧ c.arguments = [⟨0, "zone", .value .null⟩] := by
  have resolves : (zoneWiring (zonedEntries (.ofList [("zone", .value (.text "utc"))]))
      ).passesWithin 40 ["Clock", "Job"] (fun g =>
        g.target? (some "Clock") "Clock" = .ok (.factory "SystemClock") ∧
        g.classPasses "SystemClock" fun c => c.arguments = [⟨0, "zone", .value .null⟩]) = true := by
    decide +kernel
  obtain ⟨g, hg, passes⟩ := exists_of_passesWithin resolves
  obtain ⟨target, system⟩ := of_decide_eq_true passes
  obtain ⟨c, hc, arguments⟩ := Graph.exists_of_classPasses system
  exact ⟨_, _, g, c, rfl, rfl, by decide, rfl, rfl, by decide, hg, target, hc,
    of_decide_eq_true arguments⟩

end Wiring

end Injector
