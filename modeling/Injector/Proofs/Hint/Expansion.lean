import Injector.Hint.Expansion
import Injector.Proofs.Pattern.Captures
import Injector.Proofs.Table

/-!
# What hints define

A hint defines the identifiers that it is for, and besides them the classes by which it builds them,
each once and still to be discovered. A class is left to its own hint if that one takes it elsewhere.
All classes have the scope of the hint; where an override is given more than once, that of a declared
entry point counts before that of the hint, and that before the one of the hint for the class itself.
-/

namespace Injector

/-! ### Hints and their targets -/

namespace HintTable

variable {t : HintTable} {id : Identifier}

/-- No hint of its own takes a class elsewhere. -/
def leavesAlone (t : HintTable) (cls : Identifier) : Bool :=
  match t.exact.find? cls with
  | none => true
  | some (.byClass own _) => own = cls
  | some (.perConsumer _) => false

/-- The settings of a class by a hint of its own that does not take it elsewhere. -/
def ownSettings? (t : HintTable) (cls : Identifier) : Option ClassSettings :=
  match t.exact.find? cls with
  | some (.byClass own s) => if own = cls then some s else none
  | _ => none

lemma find?_exact_of_find? {b : Binding} (h : t.find? id = some (.exact b)) :
    t.exact.find? id = some b := by
  simp only [find?] at h
  split at h <;> simp_all

/-- A pattern is asked only where an identifier has no hint of its own. -/
lemma find?_wildcards_of_find? {w : WildcardHint} (h : t.find? id = some (.wildcard w)) :
    t.exact.find? id = none ∧ t.wildcards.find? (fun w => w.source.isMatch id) = some w := by
  simp only [find?] at h
  split at h
  · cases h
  · next unhinted =>
    obtain ⟨w', found, eq⟩ := Option.map_eq_some_iff.1 h
    cases eq
    exact ⟨unhinted, found⟩

lemma mem_wildcards_of_find? {w : WildcardHint} (h : t.find? id = some (.wildcard w)) :
    w ∈ t.wildcards :=
  List.mem_of_find?_eq_some (find?_wildcards_of_find? h).2

lemma isMatch_of_find? {w : WildcardHint} (h : t.find? id = some (.wildcard w)) :
    w.source.isMatch id := by
  simpa using List.find?_some (find?_wildcards_of_find? h).2

end HintTable

/-- A pattern that matches has a class, for it captures as much as the class has places for. -/
lemma WildcardHint.exists_targetFor? {w : WildcardHint} {id : Identifier}
    (h : w.source.isMatch id) : ∃ cls, w.targetFor? id = some cls := by
  obtain ⟨captures, found⟩ := Option.isSome_iff_exists.1 h
  have length : captures.length = w.target.placeholders :=
    (Pattern.admits_of_captures found).length_eq.trans w.arity
  rw [← Option.isSome_iff_exists, targetFor?, found]
  exact Pattern.isSome_substitute.2 length

namespace Hint

/-- The identifiers by which a hint builds an identifier. -/
def targets (id : Identifier) : Hint → List Identifier
  | .exact (.byClass cls _) => [cls]
  | .exact (.perConsumer t) => t.classes
  | .wildcard w => (w.targetFor? id).toList

/-- The settings that a hint has for the classes that it defines. -/
def settings : Hint → ClassSettings
  | .exact (.byClass _ s) => s
  | .exact (.perConsumer t) => { scope := t.scope }
  | .wildcard w => { scope := w.scope }

lemma nodup_targets (id : Identifier) (h : Hint) : (h.targets id).Nodup := by
  cases h with
  | exact b =>
    cases b with
    | byClass cls s => exact List.nodup_singleton cls
    | perConsumer t => exact nodup_sortedDistinct _
  | wildcard w =>
    rw [targets]
    cases w.targetFor? id <;> simp

end Hint

lemma mem_classes {t : ContextTable} {cls : Identifier} :
    cls ∈ t.classes ↔ t.default = some cls ∨ ∃ k, (k, cls) ∈ t.consumers.entries := by
  simp [ContextTable.classes, Table.values, or_comm]

/-- What the branches of a context name are the classes of its table. -/
lemma mem_namedDependencies_context {id : Identifier} {scope : Scope} {entryPoint placed : Bool}
    {t : ContextTable} {k : Identifier} :
    k ∈ (Definition.perConsumer id scope entryPoint (t.default.map (branch id scope placed))
      (t.consumers.mapValues fun _ => branch id scope placed).entries).namedDependencies ↔
      k ∈ t.classes := by
  have hb : ∀ cls, (branch id scope placed cls).namedDependencies = [cls] := fun cls => rfl
  simp only [Definition.namedDependencies, List.mem_append, Definition.mem_branchDependencies,
    Definition.mem_defaultDependencies, Table.mapValues, List.mem_map, mem_classes,
    Option.map_eq_some_iff]
  constructor
  · rintro (⟨_, ⟨e, he, rfl⟩, hk⟩ | ⟨_, ⟨cls, hc, rfl⟩, hk⟩)
    · obtain rfl : k = e.2 := by simpa [hb] using hk
      exact .inr ⟨e.1, he⟩
    · obtain rfl : k = cls := by simpa [hb] using hk
      exact .inl hc
  · rintro (hc | ⟨j, he⟩)
    · exact .inr ⟨_, ⟨k, hc, rfl⟩, by simp [hb]⟩
    · exact .inl ⟨_, ⟨(j, k), he, rfl⟩, by simp [hb]⟩

/-! ### Classes -/

/-- A class is built with some settings, unless an entry point that covers it says otherwise. -/
structure ClassDefinition.HasSettings (c : ClassDefinition) (entries : EntryPoints)
    (s : ClassSettings) : Prop where
  scope : c.scope = s.scope
  parameters : ∀ name, c.overriddenParameters.find? name =
    ((entries.find? c.id).bind (·.parameters.find? name)).or (s.parameters.find? name)
  fields : ∀ name, c.overriddenFields.find? name =
    ((entries.find? c.id).bind (·.fields.find? name)).or (s.fields.find? name)

section Classes

variable (entries : EntryPoints) (hints : HintTable) (cls : Identifier) (s : ClassSettings)
  (placed : Bool)

lemma hasSettings_classDefinition :
    (classDefinition entries cls s placed).HasSettings entries s := by
  cases h : entries.find? cls with
  | none =>
    simp only [classDefinition, h]
    exact ⟨rfl, by simp [h], by simp [h]⟩
  | some e =>
    simp only [classDefinition, h]
    refine ⟨rfl, fun name => ?_, fun name => ?_⟩
    · simp [ClassDefinition.withOverrides, Table.find?_override, h]
    · simp [ClassDefinition.withOverrides, Table.find?_override, h]

@[simp] lemma id_classDefinition : (classDefinition entries cls s placed).id = cls := by
  rw [classDefinition]
  cases entries.find? cls <;> rfl

lemma progress_classDefinition : (classDefinition entries cls s placed).progress = .pending := by
  rw [classDefinition]
  cases entries.find? cls <;> rfl

lemma dependencies_classDefinition : (classDefinition entries cls s placed).dependencies = [] := by
  rw [classDefinition]
  cases entries.find? cls <;> rfl

/-- A hint defines a class that it names exactly if no other hint does, and then keeps the overrides
that the class has by its own hint. -/
lemma implementation?_eq : implementation? entries hints cls s placed =
    if hints.leavesAlone cls then
      some (cls, .cls (classDefinition entries cls
        ((hints.ownSettings? cls).elim s fun own => own.override s) placed))
    else none := by
  cases found : hints.exact.find? cls with
  | none => simp [implementation?, HintTable.leavesAlone, HintTable.ownSettings?, found]
  | some b =>
    cases b with
    | byClass own t =>
      by_cases h : own = cls <;>
        simp [implementation?, HintTable.leavesAlone, HintTable.ownSettings?, found, h]
    | perConsumer t => simp [implementation?, HintTable.leavesAlone, found]

lemma isSome_implementation? :
    (implementation? entries hints cls s placed).isSome = hints.leavesAlone cls := by
  rw [implementation?_eq]
  cases hints.leavesAlone cls <;> rfl

variable {entries hints cls s placed}

/-- What a hint defines for a class that it names is the class, with some settings. -/
lemma exists_of_implementation? {e : Identifier × Definition}
    (h : implementation? entries hints cls s placed = some e) :
    hints.leavesAlone cls ∧ ∃ s', e = (cls, .cls (classDefinition entries cls s' placed)) := by
  rw [implementation?_eq] at h
  split at h
  · next alone =>
    cases h
    exact ⟨alone, _, rfl⟩
  · cases h

end Classes

/-! ### Expansions -/

/-- A class as a hint defines it. -/
structure ClassDefinition.IsMadeBy (c : ClassDefinition) (entries : EntryPoints)
    (hints : HintTable) (h : Hint) : Prop where
  scope : c.scope = h.settings.scope
  /-- The override of the entry point that covers the class, else that of the hint, else that of the
  hint for the class itself. -/
  parameters : ∀ name, c.overriddenParameters.find? name =
    (((entries.find? c.id).bind (·.parameters.find? name)).or
      (h.settings.parameters.find? name)).or
      ((hints.ownSettings? c.id).bind (·.parameters.find? name))
  fields : ∀ name, c.overriddenFields.find? name =
    (((entries.find? c.id).bind (·.fields.find? name)).or (h.settings.fields.find? name)).or
      ((hints.ownSettings? c.id).bind (·.fields.find? name))

/-- Definitions that a hint puts in the place of an identifier: first its own, then others. -/
structure Hint.Expands (h : Hint) (entries : EntryPoints) (hints : HintTable) (id : Identifier)
    (d : Definition) (rest : List (Identifier × Definition)) : Prop where
  keyed : ∀ e ∈ (id, d) :: rest, e.2.id = e.1
  nodup : (((id, d) :: rest).map (·.1)).Nodup
  /-- The others are classes still to be discovered. -/
  pending : ∀ e ∈ rest, ∃ c, e.2 = .cls c ∧ c.progress = .pending
  /-- It depends on what the hint names. -/
  named : ∀ k, k ≠ id → (k ∈ d.dependencies ↔ k ∈ h.targets id)
  /-- The others are all that it depends on, but for what a hint of its own takes elsewhere. -/
  mem_iff : ∀ k, k ≠ id → (k ∈ rest.map (·.1) ↔ k ∈ d.dependencies ∧ hints.leavesAlone k)
  made : ∀ e ∈ (id, d) :: rest, ∀ c, e.2 = .cls c → c.IsMadeBy entries hints h

/-- The classes that a hint defines besides the identifier that it is for. -/
def Hint.implementations (h : Hint) (entries : EntryPoints) (hints : HintTable) (id : Identifier)
    (placed : Bool) : List (Identifier × Definition) :=
  ((h.targets id).filter (· ≠ id)).filterMap fun cls =>
    implementation? entries hints cls h.settings placed

section Expansion

variable {entries : EntryPoints} {hints : HintTable} {id : Identifier} {h : Hint} {placed : Bool}

/-- A class by the hint for itself has the overrides of that hint once. -/
lemma isMadeBy_of_own (own : ∀ s, hints.ownSettings? id = some s → s = h.settings) :
    (classDefinition entries id h.settings placed).IsMadeBy entries hints h := by
  obtain ⟨scope, parameters, fields⟩ := hasSettings_classDefinition entries id h.settings placed
  have absorbs : ∀ (o : ClassSettings → Overrides) (name : String) (x : Option OverrideValue),
      (x.or ((o h.settings).find? name)).or
        ((hints.ownSettings? id).bind fun s => (o s).find? name) =
        x.or ((o h.settings).find? name) := by
    intro o name x
    cases hs : hints.ownSettings? id with
    | none => simp
    | some s => simp [own s hs, Option.or_assoc]
  refine ⟨scope, fun name => ?_, fun name => ?_⟩
  · rw [parameters, id_classDefinition, absorbs (·.parameters)]
  · rw [fields, id_classDefinition, absorbs (·.fields)]

/-- A class that a hint names has the overrides of both hints. -/
lemma isMadeBy_of_implementation? {cls : Identifier} {e : Identifier × Definition}
    (he : implementation? entries hints cls h.settings placed = some e) :
    e.1 = cls ∧ ∃ c, e.2 = .cls c ∧ c.id = cls ∧ c.progress = .pending ∧
      c.IsMadeBy entries hints h := by
  rw [implementation?_eq] at he
  split at he
  · cases he
    refine ⟨rfl, _, rfl, id_classDefinition .., progress_classDefinition .., ?_⟩
    obtain ⟨scope, parameters, fields⟩ := hasSettings_classDefinition entries cls
      ((hints.ownSettings? cls).elim h.settings fun own => own.override h.settings) placed
    constructor
    · rw [scope]
      cases hints.ownSettings? cls <;> rfl
    · intro name
      rw [parameters, id_classDefinition]
      cases hints.ownSettings? cls <;>
        simp [ClassSettings.override, Table.find?_override, Option.or_assoc]
    · intro name
      rw [fields, id_classDefinition]
      cases hints.ownSettings? cls <;>
        simp [ClassSettings.override, Table.find?_override, Option.or_assoc]
  · cases he

lemma map_fst_filterMap_implementation? (ids : List Identifier) (s : ClassSettings) :
    (ids.filterMap fun cls => implementation? entries hints cls s placed).map (·.1) =
      ids.filter hints.leavesAlone := by
  rw [List.map_filterMap, ← List.filterMap_eq_filter]
  apply List.filterMap_congr
  intro cls _
  rw [implementation?_eq]
  cases alone : hints.leavesAlone cls <;> simp [Option.guard, alone]

/-- A hint expands an identifier to a definition that depends on its targets, and its
implementations. -/
lemma expands_of_targets (placed : Bool) {d : Definition} (id_eq : d.id = id)
    (named : ∀ k, k ≠ id → (k ∈ d.dependencies ↔ k ∈ h.targets id))
    (made : ∀ c, d = .cls c → c.IsMadeBy entries hints h) :
    h.Expands entries hints id d (h.implementations entries hints id placed) := by
  have others : ∀ e ∈ h.implementations entries hints id placed, ∃ c,
      e.2 = .cls c ∧ c.id = e.1 ∧ c.progress = .pending ∧ c.IsMadeBy entries hints h := by
    intro e he
    obtain ⟨cls, -, found⟩ := List.mem_filterMap.1 he
    obtain ⟨same, made⟩ := isMadeBy_of_implementation? found
    exact same ▸ made
  constructor
  · intro e he
    rcases List.mem_cons.1 he with rfl | he
    · exact id_eq
    · obtain ⟨c, hc, same, -⟩ := others e he
      rw [hc]
      exact same
  · rw [List.map_cons, Hint.implementations, map_fst_filterMap_implementation?]
    refine List.nodup_cons.2 ⟨?_, ((h.nodup_targets id).filter _).filter _⟩
    simp
  · intro e he
    obtain ⟨c, hc, -, pending, -⟩ := others e he
    exact ⟨c, hc, pending⟩
  · exact named
  · intro k hk
    rw [Hint.implementations, map_fst_filterMap_implementation?, List.mem_filter, List.mem_filter,
      named k hk]
    simp [hk]
  · intro e he c hc
    rcases List.mem_cons.1 he with rfl | he
    · exact made c hc
    · obtain ⟨c', hc', -, -, made⟩ := others e he
      obtain rfl : c' = c := by simpa [hc'] using hc
      exact made

/-- A hint that names one class expands an identifier to the class, or to an alias of it. -/
lemma expands_classBinding (placed : Bool) {cls : Identifier} (target : h.targets id = [cls])
    (own : ∀ s, hints.ownSettings? id = some s → s = h.settings) :
    ∃ d rest, classBinding entries hints id cls h.settings placed = (id, d) :: rest ∧
      h.Expands entries hints id d rest := by
  rw [classBinding]
  by_cases self : cls = id
  · have alone : [] = h.implementations entries hints id placed := by
      simp [Hint.implementations, target, self]
    rw [if_pos self, alone]
    refine ⟨_, _, rfl, expands_of_targets placed (id_classDefinition ..) ?_ ?_⟩
    · intro k hk
      simp [Definition.namedDependencies, dependencies_classDefinition, target, self, hk]
    · rintro c ⟨⟩
      exact isMadeBy_of_own own
  · have implements : (implementation? entries hints cls h.settings placed).toList =
        h.implementations entries hints id placed := by
      cases found : implementation? entries hints cls h.settings placed <;>
        simp [Hint.implementations, target, self, found]
    rw [if_neg self, implements]
    refine ⟨_, _, rfl, expands_of_targets placed rfl ?_ ?_⟩
    · intro k _
      simp [Definition.namedDependencies, target]
    · rintro c ⟨⟩

/-- A hint that names a class for each consumer expands an identifier to their branches. -/
lemma expands_contextBinding (placed : Bool) {t : ContextTable}
    (found : hints.exact.find? id = some (.perConsumer t)) :
    ∃ d rest, contextBinding entries hints id t placed = (id, d) :: rest ∧
      (Hint.exact (.perConsumer t)).Expands entries hints id d rest := by
  -- a branch to the identifier itself is left to the hint, which is its own
  have elsewhere : implementation? entries hints id { scope := t.scope } placed = none := by
    rw [implementation?_eq]
    simp [HintTable.leavesAlone, found]
  have implements : t.classes.filterMap (fun cls =>
      implementation? entries hints cls { scope := t.scope } placed) =
      (Hint.exact (.perConsumer t)).implementations entries hints id placed := by
    rw [Hint.implementations, List.filterMap_filter]
    apply List.filterMap_congr
    intro cls _
    by_cases self : cls = id <;> simp [self, elsewhere, Hint.settings]
  rw [contextBinding, implements]
  refine ⟨_, _, rfl, expands_of_targets placed rfl ?_ ?_⟩
  · intro k _
    rw [Definition.mem_dependencies]
    exact mem_namedDependencies_context
  · rintro c ⟨⟩

end Expansion

/-- The hint for an identifier always defines it, and besides it the classes by which it is built,
with the settings of the hint. -/
theorem Hint.expands_of_find? {entries : EntryPoints} {hints : HintTable} {id : Identifier}
    {h : Hint} (found : hints.find? id = some h) (placed : Bool) :
    ∃ d rest, h.definitions entries hints id placed = .ok ((id, d) :: rest) ∧
      h.Expands entries hints id d rest := by
  cases h with
  | exact b =>
    have bound := HintTable.find?_exact_of_find? found
    cases b with
    | byClass cls s =>
      have own : ∀ s', hints.ownSettings? id = some s' → s' = s := by
        intro s' h
        rw [HintTable.ownSettings?, bound] at h
        dsimp only at h
        split at h <;> cases h
        rfl
      obtain ⟨d, rest, eq, expands⟩ :=
        expands_classBinding (h := .exact (.byClass cls s)) placed rfl own
      exact ⟨d, rest, congrArg _ eq, expands⟩
    | perConsumer t =>
      obtain ⟨d, rest, eq, expands⟩ := expands_contextBinding placed bound
      exact ⟨d, rest, congrArg _ eq, expands⟩
  | wildcard w =>
    obtain ⟨cls, target⟩ := WildcardHint.exists_targetFor? (HintTable.isMatch_of_find? found)
    have own : ∀ s, hints.ownSettings? id = some s → s = Hint.settings (.wildcard w) := by
      intro s h
      rw [HintTable.ownSettings?, (HintTable.find?_wildcards_of_find? found).1] at h
      cases h
    obtain ⟨d, rest, eq, expands⟩ :=
      expands_classBinding (h := .wildcard w) placed (by rw [Hint.targets, target]; rfl) own
    refine ⟨d, rest, ?_, expands⟩
    rw [Hint.definitions, target]
    exact congrArg _ eq

/-- Loggers by consumer: the class for some has settings of its own, that for others is an alias. -/
def loggerTable : ContextTable :=
  { default := some "File", scope := .prototype,
    consumers := .ofList [("Api", "Null"), ("Cron", "Disk"), ("Job", "Null")] }

def loggerHints : HintTable :=
  ⟨.ofList [("Logger", .perConsumer loggerTable), ("Disk", .byClass "Drive" {}),
    ("Null", .byClass "Null" { parameters := .ofList [("level", .value (.integer 1))] })], []⟩

def loggerEntries : EntryPoints :=
  ⟨[{ ids := ["Null"], parameters := .ofList [("level", .value (.integer 2))] }]⟩

/-- Each class is defined once, but the one that is an alias is left to its own hint. -/
theorem Hint.expands_loggerHints :
    loggerHints.find? "Logger" = some (.exact (.perConsumer loggerTable)) ∧
      ∃ d rest, (Hint.exact (.perConsumer loggerTable)).definitions loggerEntries loggerHints
          "Logger" false = .ok (("Logger", d) :: rest) ∧
        (Hint.exact (.perConsumer loggerTable)).Expands loggerEntries loggerHints "Logger" d rest ∧
        rest.map (·.1) = ["File", "Null"] := by
  have found : loggerHints.find? "Logger" = some (.exact (.perConsumer loggerTable)) := by decide
  obtain ⟨d, rest, eq, expands⟩ :=
    @Hint.expands_of_find? loggerEntries loggerHints "Logger" _ found false
  have keys : ((Hint.exact (.perConsumer loggerTable)).definitions loggerEntries loggerHints
      "Logger" false).toOption.map (·.map (·.1)) = some ["Logger", "File", "Null"] := by decide
  rw [eq] at keys
  exact ⟨found, d, rest, eq, expands, by simpa [Except.toOption] using keys⟩

end Injector
