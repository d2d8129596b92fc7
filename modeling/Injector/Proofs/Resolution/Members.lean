import Injector.Proofs.Resolution.Outcome

/-!
# The members of resolved classes

A resolution that succeeds has found a source for each parameter and each injected field of every
class that it came to, and a member for each override. So a class in a resolved graph is an image of
what the provider says of it: one argument for each parameter, one value for each injected field, and
nothing else.
-/

namespace Injector

/-! ### Sources of members -/

/-- What a parameter is given: its override, or else its default if it is optional, or else an
instance of its type. -/
inductive Parameter.Gets (overrides : Overrides) (p : Parameter) : Source → Prop
  | overridden {value : OverrideValue} (found : overrides.find? p.name = some value) :
      Gets overrides p value.source
  | optional (absent : overrides.find? p.name = none) (isOptional : p.isOptional = true) :
      Gets overrides p (.value (p.default.getD .null))
  | injected {type : Identifier} (absent : overrides.find? p.name = none)
      (required : p.isOptional = false) (typed : p.type = some type) :
      Gets overrides p (.dependency type)

/-- What a field is given: its override, or else an instance of its type. -/
inductive Field.Gets (overrides : Overrides) (f : Field) : Source → Prop
  | overridden {value : OverrideValue} (found : overrides.find? f.name = some value) :
      Gets overrides f value.source
  | injected {type : Identifier} (absent : overrides.find? f.name = none)
      (typed : f.type = some type) : Gets overrides f (.dependency type)

lemma Parameter.gets_of_source? {overrides : Overrides} {p : Parameter} {s : Source}
    (h : p.source? overrides = some s) : p.Gets overrides s := by
  simp only [source?] at h
  split at h
  · next value found =>
    cases h
    exact .overridden found
  · next absent =>
    split at h
    · next isOptional =>
      cases h
      exact .optional absent isOptional
    · next required =>
      obtain ⟨type, typed, rfl⟩ := Option.map_eq_some_iff.1 h
      exact .injected absent (by simpa using required) typed

lemma Field.gets_of_source? {overrides : Overrides} {f : Field} {s : Source}
    (h : f.source? overrides = some s) : f.Gets overrides s := by
  simp only [source?] at h
  split at h
  · next value found =>
    cases h
    exact .overridden found
  · next absent =>
    obtain ⟨type, typed, rfl⟩ := Option.map_eq_some_iff.1 h
    exact .injected absent typed

/-- If every parameter has a source, there is one argument for each, in its place. -/
lemma forall₂_arguments {overrides : Overrides} {ps : List Parameter}
    (supplied : ∀ p ∈ ps, (p.source? overrides).isSome) (n : Nat) :
    List.Forall₂ (fun e a => a.position = e.2 ∧ a.name = e.1.name ∧ e.1.Gets overrides a.source)
      (ps.zipIdx n) (arguments overrides n ps) := by
  induction ps generalizing n with
  | nil => exact .nil
  | cons p ps ih =>
    obtain ⟨s, hs⟩ := Option.isSome_iff_exists.1 (supplied p List.mem_cons_self)
    rw [List.zipIdx_cons, arguments, hs]
    exact .cons ⟨rfl, rfl, p.gets_of_source? hs⟩
      (ih (fun p hp => supplied p (List.mem_cons_of_mem _ hp)) (n + 1))

/-- If every injected field has a source, there is one value for each. -/
lemma forall₂_injectedFields {overrides : Overrides} {fs : List Field}
    (supplied : ∀ f ∈ fs, f.isInjected overrides →
      f.isStatic = false ∧ (f.source? overrides).isSome) :
    List.Forall₂ (fun f v => v.name = f.name ∧ f.isStatic = false ∧ f.Gets overrides v.source)
      (fs.filter (Field.isInjected overrides)) (injectedFields overrides fs) := by
  have all : ∀ f ∈ fs.filter (Field.isInjected overrides),
      f.isStatic = false ∧ (f.source? overrides).isSome := by
    intro f hf
    obtain ⟨hf, injected⟩ := List.mem_filter.1 hf
    exact supplied f hf injected
  simp only [injectedFields]
  generalize fs.filter (Field.isInjected overrides) = gs at all ⊢
  induction gs with
  | nil => exact .nil
  | cons f gs ih =>
    obtain ⟨notStatic, hs⟩ := all f List.mem_cons_self
    obtain ⟨s, hs⟩ := Option.isSome_iff_exists.1 hs
    rw [List.filterMap_cons, hs]
    exact .cons ⟨rfl, notStatic, f.gets_of_source? hs⟩
      (ih fun f hf => all f (List.mem_cons_of_mem _ hf))

/-! ### Tasks that do not give up -/

lemma clean_append_iff {ts us : List Task} :
    (∀ e, .fail e ∉ ts ++ us) ↔ (∀ e, .fail e ∉ ts) ∧ ∀ e, .fail e ∉ us := by
  simp only [List.mem_append, not_or, forall_and]

lemma clean_flatMap_iff {α : Type} {f : α → List Task} {l : List α} :
    (∀ e, .fail e ∉ l.flatMap f) ↔ ∀ a ∈ l, ∀ e, .fail e ∉ f a := by
  simp only [List.mem_flatMap, not_exists, not_and]
  exact ⟨fun h a ha e => h e a ha, fun h e a ha => h a ha e⟩

lemma clean_memberTasks_iff {c : ClassDefinition} {kind : MemberKind} {placed : Bool}
    {name : String} {source : Option Source} :
    (∀ e, .fail e ∉ memberTasks c kind placed name source) ↔ source.isSome := by
  rcases source with _ | s
  · simp [memberTasks]
  · cases s <;> simp [memberTasks]

lemma clean_overrideTasks_iff {c : ClassDefinition} {kind : MemberKind} {overrides : Overrides}
    {names : List String} :
    (∀ e, .fail e ∉ overrideTasks c kind overrides names) ↔
      ∀ name ∈ overrides.keys, name ∈ names := by
  have unknown : unknownNames overrides names = [] ↔ ∀ name ∈ overrides.keys, name ∈ names := by
    simp [unknownNames, List.filter_eq_nil_iff]
  rw [← unknown, overrideTasks]
  cases unknownNames overrides names <;> simp

/-- The tasks for parameters do not give up if each has a source and each override has one. -/
lemma clean_parameterTasks_iff {c : ClassDefinition} {placed : Bool} {ps : List Parameter} :
    (∀ e, .fail e ∉ parameterTasks c placed ps) ↔
      (∀ p ∈ ps, (p.source? c.overriddenParameters).isSome) ∧
        ∀ name ∈ c.overriddenParameters.keys, name ∈ ps.map (·.name) := by
  rw [parameterTasks, clean_append_iff, clean_flatMap_iff, clean_overrideTasks_iff]
  simp only [clean_memberTasks_iff]

lemma clean_fieldTask_iff {c : ClassDefinition} {placed : Bool} {f : Field} :
    (∀ e, .fail e ∉ fieldTask c placed f) ↔
      (f.isInjected c.overriddenFields →
        f.isStatic = false ∧ (f.source? c.overriddenFields).isSome) := by
  simp only [fieldTask]
  by_cases injected : f.isInjected c.overriddenFields
  · cases hs : f.isStatic <;> simp [injected, clean_memberTasks_iff]
  · simp [injected]

/-- The tasks for fields do not give up if each injected one has a source and is not static, and
each override has a field. -/
lemma clean_fieldTasks_iff {c : ClassDefinition} {placed : Bool} {fs : List Field} :
    (∀ e, .fail e ∉ fieldTasks c placed fs) ↔
      (∀ f ∈ fs, f.isInjected c.overriddenFields →
        f.isStatic = false ∧ (f.source? c.overriddenFields).isSome) ∧
        ∀ name ∈ c.overriddenFields.keys, name ∈ fs.map (·.name) := by
  rw [fieldTasks, clean_append_iff, clean_flatMap_iff, clean_overrideTasks_iff]
  simp only [clean_fieldTask_iff]

namespace Wiring

variable {w : Wiring} {roots : List Identifier}

/-! ### What the provider supplies -/

/-- The provider has a source for each parameter of a class, and a parameter for each override. -/
def SuppliesParameters (w : Wiring) (c : ClassDefinition) : Prop :=
  w.config.injection.constructor → ∃ ps, w.provider.parameters c.id = .ok ps ∧
    (∀ p ∈ ps, (p.source? c.overriddenParameters).isSome) ∧
    ∀ name ∈ c.overriddenParameters.keys, name ∈ ps.map (·.name)

/-- The provider has a source for each injected field of a class, none of which is static, and a
field for each override. -/
def SuppliesFields (w : Wiring) (c : ClassDefinition) : Prop :=
  w.config.injection.fields → ∃ fs, w.provider.fields c.id = .ok fs ∧
    (∀ f ∈ fs, f.isInjected c.overriddenFields →
      f.isStatic = false ∧ (f.source? c.overriddenFields).isSome) ∧
    ∀ name ∈ c.overriddenFields.keys, name ∈ fs.map (·.name)

lemma suppliesParameters_of_shape_eq {c c' : ClassDefinition} (h : c.shape = c'.shape) :
    w.SuppliesParameters c ↔ w.SuppliesParameters c' := by
  have hid : c.id = c'.id := (congrArg ClassDefinition.id h :)
  have ho : c.overriddenParameters = c'.overriddenParameters :=
    (congrArg ClassDefinition.overriddenParameters h :)
  rw [SuppliesParameters, SuppliesParameters, hid, ho]

lemma suppliesFields_of_shape_eq {c c' : ClassDefinition} (h : c.shape = c'.shape) :
    w.SuppliesFields c ↔ w.SuppliesFields c' := by
  have hid : c.id = c'.id := (congrArg ClassDefinition.id h :)
  have ho : c.overriddenFields = c'.overriddenFields :=
    (congrArg ClassDefinition.overriddenFields h :)
  rw [SuppliesFields, SuppliesFields, hid, ho]

/-- The discovery of a class that goes on has a source for each parameter. -/
lemma suppliesParameters_of_discover {g g' : Graph} {c : ClassDefinition} {placed : Bool}
    {next : List Task} (h : w.discover g c placed = .ok (g', next))
    (clean : ∀ e, .fail e ∉ next) : w.SuppliesParameters c := by
  intro enabled
  obtain ⟨source, -, h⟩ := bind_eq_ok.1 h
  obtain ⟨ps, hp, h⟩ := bind_eq_ok.1 h
  cases h
  rw [if_pos enabled, clean_append_iff] at clean
  rw [parametersOf, if_pos enabled] at hp
  exact ⟨ps, hp, clean_parameterTasks_iff.1 clean.1⟩

/-- The discovery of fields that goes on has a source for each injected field. -/
lemma suppliesFields_of_discoverFields {g g' : Graph} {c : ClassDefinition} {placed : Bool}
    {next : List Task} (h : w.discoverFields g c placed = .ok (g', next))
    (clean : ∀ e, .fail e ∉ next) : w.SuppliesFields c := by
  intro enabled
  obtain ⟨fs, hf, h⟩ := bind_eq_ok.1 h
  cases h
  rw [if_pos enabled, clean_append_iff] at clean
  rw [fieldsOf, if_pos enabled] at hf
  exact ⟨fs, hf, clean_fieldTasks_iff.1 clean.1⟩

/-- The discovery of a class that is supplied goes on. -/
lemma exists_discover {c : ClassDefinition} {source : Option String}
    (answer : w.provider.sourceUnit c.id = .ok source) (supplies : w.SuppliesParameters c)
    (g : Graph) (placed : Bool) :
    ∃ g' next, w.discover g c placed = .ok (g', next) ∧ ∀ e, .fail e ∉ next := by
  have clean_last : ∀ {c' e}, Task.fail e ∉ [Task.discoverFields c' placed] := by simp
  by_cases enabled : w.config.injection.constructor
  · obtain ⟨ps, hps, supplied⟩ := supplies enabled
    simp only [discover, parametersOf, if_pos enabled, answer, hps]
    exact ⟨_, _, rfl, clean_append_iff.2 ⟨clean_parameterTasks_iff.2 supplied, fun e => clean_last⟩⟩
  · simp only [discover, parametersOf, if_neg enabled, answer]
    exact ⟨_, _, rfl, fun e => clean_last⟩

/-- The discovery of fields that are supplied goes on. -/
lemma exists_discoverFields {c : ClassDefinition} (supplies : w.SuppliesFields c) (g : Graph)
    (placed : Bool) :
    ∃ g' next, w.discoverFields g c placed = .ok (g', next) ∧ ∀ e, .fail e ∉ next := by
  have clean_last : ∀ {c' e}, Task.fail e ∉ [Task.complete c'] := by simp
  by_cases enabled : w.config.injection.fields
  · obtain ⟨fs, hfs, supplied⟩ := supplies enabled
    simp only [discoverFields, fieldsOf, if_pos enabled, hfs]
    exact ⟨_, _, rfl, clean_append_iff.2 ⟨clean_fieldTasks_iff.2 supplied, fun e => clean_last⟩⟩
  · simp only [discoverFields, fieldsOf, if_neg enabled]
    exact ⟨_, _, rfl, fun e => clean_last⟩

/-! ### What was supplied so far -/

/-- As far as the discovery of each class has come, all that it needs was supplied. -/
structure Supplied (w : Wiring) (g : Graph) (ts : List Task) : Prop where
  begun : ∀ k c, g.find? k = some (.cls c) → c.progress ≠ .pending → w.SuppliesParameters c
  completing : ∀ c, .complete c ∈ ts → w.SuppliesFields c
  resolved : ∀ k c, g.find? k = some (.cls c) → c.progress = .resolved → w.SuppliesFields c

lemma supplied_start (w : Wiring) (roots : List Identifier) :
    w.Supplied (w.start roots) (roots.map w.rootTask) := by
  constructor
  · exact fun k c hk => absurd hk (find?_start_ne_cls w roots k c)
  · intro c hc
    obtain ⟨r, -, hr⟩ := List.mem_map.1 hc
    cases hr
  · exact fun k c hk => absurd hk (find?_start_ne_cls w roots k c)

lemma Supplied.begun_next {g g' : Graph} {t : Task} {rest next : List Task}
    (s : w.Supplied g (t :: rest)) (o : w.Original g) (u : w.Underway g (t :: rest))
    (h : w.Step g t g' next) (done : w.perform g t = .ok (g', next))
    (clean : ∀ e, .fail e ∉ next) {k : Identifier} {c' : ClassDefinition}
    (hk : g'.find? k = some (.cls c')) (begun : c'.progress ≠ .pending) :
    w.SuppliesParameters c' := by
  rcases h.find?_cases o hk with ⟨-, new⟩ | ⟨d, hd, altered⟩
  · rw [← new.shape_cls] at begun
    exact absurd rfl begun
  obtain ⟨c, rfl, same⟩ := h.keeps.exists_cls hd hk
  rw [← suppliesParameters_of_shape_eq same]
  cases altered with
  | kept | counted => exact s.begun k _ hd begun
  | begun discover pending eq =>
    subst discover
    cases eq
    simp only [perform, hd, if_pos pending] at done
    exact suppliesParameters_of_discover done clean
  | @completed found complete hid =>
    subst complete
    obtain ⟨⟨c₁, hc₁, -, begun₁⟩, -⟩ := u.completing _ List.mem_cons_self found rfl
    rw [hid, hd] at hc₁
    cases hc₁
    exact s.begun k _ hd begun₁

lemma Supplied.completing_next {g g' : Graph} {t : Task} {next : List Task}
    (h : w.Step g t g' next) (done : w.perform g t = .ok (g', next))
    (clean : ∀ e, .fail e ∉ next) {c : ClassDefinition} (hc : .complete c ∈ next) :
    w.SuppliesFields c := by
  cases h.origin hc rfl with
  | continued answer =>
    exact (suppliesFields_of_shape_eq rfl).1 (suppliesFields_of_discoverFields done clean)

lemma Supplied.next {g g' : Graph} {t : Task} {rest next : List Task}
    (s : w.Supplied g (t :: rest)) (o : w.Original g) (u : w.Underway g (t :: rest))
    (h : w.Step g t g' next) (done : w.perform g t = .ok (g', next))
    (clean : ∀ e, .fail e ∉ next) : w.Supplied g' (next ++ rest) where
  begun k c' hk begun := s.begun_next o u h done clean hk begun
  completing c hc := by
    rcases List.mem_append.1 hc with hc | hc
    · exact completing_next h done clean hc
    · exact s.completing c (List.mem_cons_of_mem t hc)
  resolved k c' hk resolved := by
    rcases h.find?_cases o hk with ⟨-, new⟩ | ⟨d, hd, altered⟩
    · rw [← new.shape_cls] at resolved
      cases resolved
    obtain ⟨c, rfl, same⟩ := h.keeps.exists_cls hd hk
    rw [← suppliesFields_of_shape_eq same]
    cases altered with
    | kept | counted => exact s.resolved k _ hd resolved
    | begun => cases resolved
    | @completed found complete hid =>
      subst complete
      obtain ⟨⟨c₁, hc₁, shape, -⟩, -⟩ := u.completing _ List.mem_cons_self found rfl
      rw [hid, hd] at hc₁
      cases hc₁
      exact (suppliesFields_of_shape_eq shape).2 (s.completing found List.mem_cons_self)

lemma supplied_of_visits {g h : Graph} {us : List Task} (ok : w.Yields roots g)
    (v : w.Visits roots h us) : w.Supplied h us := by
  induction v with
  | refl => exact supplied_start w roots
  | step before done ih =>
    exact ih.next (original_of_visits ok before) (underway_of_visits ok before)
      (before.step_of_perform ok done) done (before.clean_of_perform ok done)

/-- In the end every class was supplied with all that it needs. -/
theorem Yields.supplies {g : Graph} (ok : w.Yields roots g) {k : Identifier}
    {c : ClassDefinition} (hk : g.find? k = some (.cls c)) :
    w.SuppliesParameters c ∧ w.SuppliesFields c := by
  have s := supplied_of_visits ok ok.visits
  have resolved : c.progress = .resolved := (ok.describes hk).1
  exact ⟨s.begun k c hk (by simp [resolved]), s.resolved k c hk resolved⟩

/-! ### Images -/

/-- A class is an image of what the provider says of it. Where a style of injection is enabled, the
members of that style correspond one by one to those that the provider names, in the same order. -/
structure Images (w : Wiring) (c : ClassDefinition) : Prop where
  resolved : c.progress = .resolved
  source : w.provider.sourceUnit c.id = .ok c.sourceUnit
  arguments : w.config.injection.constructor = true → ∃ ps, w.provider.parameters c.id = .ok ps ∧
    List.Forall₂ (fun e a => a.position = e.2 ∧ a.name = e.1.name ∧
      e.1.Gets c.overriddenParameters a.source) ps.zipIdx c.arguments ∧
    ∀ name ∈ c.overriddenParameters.keys, name ∈ ps.map (·.name)
  argumentless : w.config.injection.constructor = false → c.arguments = []
  fields : w.config.injection.fields = true → ∃ fs, w.provider.fields c.id = .ok fs ∧
    List.Forall₂ (fun f v => v.name = f.name ∧ f.isStatic = false ∧
      f.Gets c.overriddenFields v.source)
      (fs.filter fun f => f.isMarked || c.overriddenFields.contains f.name) c.fields ∧
    ∀ name ∈ c.overriddenFields.keys, name ∈ fs.map (·.name)
  fieldless : w.config.injection.fields = false → c.fields = []

lemma Yields.images {g : Graph} (ok : w.Yields roots g) {k : Identifier} {c : ClassDefinition}
    (hk : g.find? k = some (.cls c)) : w.Images c := by
  obtain ⟨resolved, ⟨source, ps, hps, arguments⟩, fs, hfs, fields⟩ := ok.describes hk
  obtain ⟨parameters, injected⟩ := ok.supplies hk
  refine ⟨resolved, source, fun enabled => ?_, fun disabled => ?_, fun enabled => ?_,
    fun disabled => ?_⟩
  · obtain ⟨ps', hps', supplied, known⟩ := parameters enabled
    rw [parametersOf, if_pos enabled] at hps
    cases hps.symm.trans hps'
    rw [arguments]
    exact ⟨ps, hps, forall₂_arguments supplied 0, known⟩
  · obtain rfl := arguments_of_not_constructor disabled hps
    exact arguments
  · obtain ⟨fs', hfs', supplied, known⟩ := injected enabled
    rw [fieldsOf, if_pos enabled] at hfs
    cases hfs.symm.trans hfs'
    rw [fields]
    exact ⟨fs, hfs, forall₂_injectedFields supplied, known⟩
  · obtain rfl := fields_of_not_fields disabled hfs
    exact fields

end Wiring

open Wiring

variable {w : Wiring} {entry : Option Identifier} {g : Graph}

/-- Every class of a resolved graph is an image of what the provider says of it. -/
theorem images_of_resolveFor (h : w.resolveFor entry = .ok g) {k : Identifier} {d : Definition}
    {c : ClassDefinition} (hk : g.find? k = some d) (hc : d.core = .cls c) :
    c.id = k ∧ w.Images c := by
  obtain ⟨g₀, always, yields, rfl⟩ := exists_of_resolveFor h
  have found : g₀.find? k = some (.cls c) := hc ▸ yields.find?_core hk
  exact ⟨yields.original.id_eq found, yields.images found⟩

/-- A mailer with an optional host, a log that leads back to it, a port that its entry point gives,
and a clock in a field; another field is not marked. -/
def mailerWiring : Wiring where
  config := { injection := { constructor := true, fields := true } }
  provider := Metadata.provider <| .ofList
    [("Mailer",
      { source := some "mailer"
        parameters := [{ name := "host", isOptional := true },
          { name := "log", type := some "Log" }, { name := "port" }]
        fields := [{ name := "debug" }, { name := "clock", type := some "Clock", isMarked := true }] }),
      ("FileLog", { parameters := [{ name := "mailer", type := some "Mailer" }] }),
      ("Clock", {})]
  mode := .compile
  entries := ⟨[{ ids := ["Mailer"], parameters := .ofList [("port", .value (.integer 25))] }]⟩
  hints := ⟨.ofList [("Log", .byClass "FileLog" {})], []⟩

theorem images_mailerWiring :
    ∃ g c, mailerWiring.resolveFor none = .ok g ∧ g.find? "Mailer" = some (.cls c) ∧
      c.arguments = [⟨0, "host", .value .null⟩, ⟨1, "log", .dependency "Log"⟩,
        ⟨2, "port", .value (.integer 25)⟩] ∧
      c.fields = [⟨"clock", .dependency "Clock"⟩] ∧ c.id = "Mailer" ∧ mailerWiring.Images c := by
  have resolves : mailerWiring.passesWithin 40 ["Mailer"] (fun g =>
      g.classPasses "Mailer" fun c =>
        c.arguments = [⟨0, "host", .value .null⟩, ⟨1, "log", .dependency "Log"⟩,
          ⟨2, "port", .value (.integer 25)⟩] ∧
        c.fields = [⟨"clock", .dependency "Clock"⟩]) = true := by
    decide +kernel
  obtain ⟨g, hg, passes⟩ := exists_of_passesWithin resolves
  obtain ⟨c, hc, members⟩ := Graph.exists_of_classPasses passes
  obtain ⟨arguments, fields⟩ := of_decide_eq_true members
  have h : mailerWiring.resolveFor none = .ok g := hg
  exact ⟨g, c, h, hc, arguments, fields, images_of_resolveFor h hc rfl⟩

end Injector
