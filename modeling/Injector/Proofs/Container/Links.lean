import Injector.Proofs.Container.Complete
import Injector.Proofs.Container.Written

/-!
# References in a container

The bodies of a container call its methods, read and fill its kept instances, and splice in its
files. Which of these a body does for an identifier is decided apart from which of them it gets;
here the two are seen to agree.
-/

namespace Injector

/-! ### What a linked container is -/

namespace Container

/-- A body constructs a class, itself or by the bodies that it leads to. -/
inductive Constructs (c : Container) : Body → Identifier → Prop
  | construct (b : Construction) : Constructs c (.construct b) b.cls
  | splice {p : PlacedBody} {cls : Identifier} (file : p ∈ c.files)
      (body : Constructs c p.body cls) : Constructs c (.splice p.name) cls
  | proxy {units : List String} {f : Factory} {cls : Identifier} (method : f ∈ c.factories)
      (body : Constructs c f.body cls) : Constructs c (.proxy units f.name) cls

/-- The method of a name builds a class, or the file of that name does if there is no method. -/
def Builds (c : Container) (name : String) (cls : Identifier) : Prop :=
  (∃ f ∈ c.factories, f.name = name ∧ c.Constructs f.body cls) ∨
    name ∉ c.factories.map (·.name) ∧ ∃ p ∈ c.files, p.name = name ∧ c.Constructs p.body cls

/-- Whatever the code of a container refers to is there. -/
structure IsLinked (config : Config) (c : Container) (files : Artifacts) : Prop where
  /-- Each method is defined once. -/
  methods : (c.factories.map (·.name)).Nodup
  /-- What is called is a method. -/
  calls : ∀ b ∈ c.bodies, ∀ site name, .call name ∈ (b.code config.directory site).pieces →
    name ∈ c.factories.map (·.name)
  /-- What is read or filled is a field of the type that the method or file of its name builds. -/
  keeps : ∀ b ∈ c.bodies, ∀ site name, (.read name ∈ (b.code config.directory site).pieces ∨
    .fill name ∈ (b.code config.directory site).pieces) → ∃ cls,
      (⟨name, "Arc<" ++ cls ++ ">"⟩ : Cache) ∈ c.caches ∧ c.Builds name cls
  /-- Each field has a name of its own. -/
  fields : (c.caches.map (·.name)).Nodup ∧ ∀ f ∈ c.caches, f.name ∉ reservedMembers
  /-- The main file splices in files by their paths. -/
  mainSplices : ∀ f ∈ c.factories, ∀ path,
    .splice path ∈ (f.body.code config.directory .main).pieces → ∃ p ∈ c.files,
      path = config.directory ++ "/" ++ p.name ++ ".rs" ∧ path ∈ files.placed.keys
  /-- The other files splice in their neighbours. -/
  placedSplices : ∀ p ∈ c.files, ∀ path,
    .splice path ∈ (p.body.code config.directory .placed).pieces → ∃ q ∈ c.files,
      path = q.name ++ ".rs" ∧
        config.directory ++ "/" ++ q.name ++ ".rs" ∈ files.placed.keys
  /-- The splices of the main file stand on lines of it, unless there is a line feed in the path of
  the directory of the files. -/
  shown : (∀ f ∈ c.factories, ∀ path, .splice path ∈ (f.body.code config.directory .main).pieces →
      IsOnLine ("include!(\"" ++ path ++ "\")") files.mainText) ↔
    '\n' ∉ config.directory.toList ∨ ∀ f ∈ c.factories, f.body.splices = []

end Container

/-! ### What bodies lead to -/

lemma Definition.instanceType_core (d : Definition) : d.core.instanceType = d.instanceType :=
  apply_core instanceType (fun _ _ _ => rfl) d

namespace Graph

variable {g : Graph}

/-- An access to the container, or to a class or a proxy in the way that the graph has for it. -/
def Offers (g : Graph) (a : Access) : Prop :=
  a = .container ∨ ∃ k d, g.find? k = some d ∧
    ((∃ c, d = .cls c) ∨ ∃ inner fileBased always, d = .autoloaded inner fileBased always) ∧
    a = .factory (factoryName k) (g.isSpliced k) (g.isCached k)

lemma offers_of_access {consumer : Option Identifier} {id : Identifier} {a : Access}
    (h : g.access consumer id = .ok a) : g.Offers a := by
  obtain ⟨t, ht⟩ := exists_of_map_eq_ok h
  rw [access, ht] at h
  cases h
  cases t with
  | container => exact .inl rfl
  | factory k =>
    obtain ⟨-, d, hd, kind⟩ := exists_factory_of_target? ht
    exact .inr ⟨k, d, hd, kind, rfl⟩

lemma access_of_value {cls : Identifier} {s : Source} {v : Value} (h : g.value cls s = .ok v)
    {a : Access} (ha : a ∈ v.accesses) :
    ∃ j, s.dependency? = some j ∧ g.access (some cls) j = .ok a := by
  cases s with
  | dependency j =>
    obtain ⟨a', ha'⟩ := exists_of_map_eq_ok h
    rw [value, ha'] at h
    cases h
    rw [List.mem_singleton.1 ha]
    exact ⟨j, rfl, ha'⟩
  | value | reference =>
    cases h
    cases ha

/-- A construction gets at what its class depends on. -/
lemma access_of_construction {c : ClassDefinition} {b : Construction}
    (h : g.construction c = .ok b) {a : Access} (ha : a ∈ (Body.construct b).accesses) :
    ∃ j ∈ c.dependencies, g.access (some c.id) j = .ok a := by
  obtain ⟨args, hargs, h⟩ := bind_eq_ok.1 h
  obtain ⟨fields, hfields, h⟩ := bind_eq_ok.1 h
  cases h
  have source : ∃ s ∈ c.arguments.map (·.source) ++ c.fields.map (·.source),
      ∃ v, g.value c.id s = .ok v ∧ a ∈ v.accesses := by
    rcases List.mem_append.1 ha with ha | ha
    · obtain ⟨v, hv, ha⟩ := List.mem_flatMap.1 ha
      obtain ⟨arg, harg, eq⟩ := (exists_mem_of_mapM_eq_ok hargs).2 v hv
      exact ⟨arg.source, List.mem_append_left _ (List.mem_map_of_mem harg), v, eq, ha⟩
    · obtain ⟨f, hf, ha⟩ := List.mem_flatMap.1 ha
      obtain ⟨field, hfield, eq⟩ := (exists_mem_of_mapM_eq_ok hfields).2 f hf
      obtain ⟨v, hv⟩ := exists_of_map_eq_ok eq
      rw [hv] at eq
      cases eq
      exact ⟨field.source, List.mem_append_right _ (List.mem_map_of_mem hfield), v, hv, ha⟩
  obtain ⟨s, hs, v, hv, ha⟩ := source
  obtain ⟨j, hj, access⟩ := access_of_value hv ha
  exact ⟨j, List.mem_filterMap.2 ⟨s, hs, hj⟩, access⟩

/-- What a body gets at is the container, or something that it asks for. -/
lemma access_of_body {d : Definition} {b : Body} (h : g.body d = .ok b) {a : Access}
    (ha : a ∈ b.accesses) : a = .container ∨ ∃ q ∈ d.lookups, g.access q.1 q.2 = .ok a := by
  induction d using Definition.id.induct with
  | case1 c =>
    obtain ⟨k, hk⟩ := exists_of_map_eq_ok h
    rw [body, hk] at h
    cases h
    obtain ⟨j, hj, access⟩ := access_of_construction hk ha
    exact .inr ⟨_, List.mem_map_of_mem hj, access⟩
  | case2 r =>
    simp only [body] at h
    split at h
    · cases h
      exact .inl (List.mem_singleton.1 ha)
    · next target =>
      obtain ⟨x, hx⟩ := exists_of_map_eq_ok h
      rw [hx] at h
      cases h
      rw [List.mem_singleton.1 ha]
      exact .inr ⟨(some r.id, r.target), by simp [Definition.lookups, target], hx⟩
  | case3 =>
    cases h
    exact .inl (List.mem_singleton.1 ha)
  | case4 id =>
    obtain ⟨x, hx⟩ := exists_of_map_eq_ok h
    rw [body, hx] at h
    cases h
    rw [List.mem_singleton.1 ha]
    exact .inr ⟨(none, id), List.mem_singleton.2 rfl, hx⟩
  | case5 inner _ _ ih => exact ih h

lemma offers_of_construction {c : ClassDefinition} {b : Construction}
    (h : g.construction c = .ok b) :
    b.cls = c.id ∧ b.cache = (if g.isCached c.id then some (factoryName c.id) else none) ∧
      ∀ a ∈ (Body.construct b).accesses, g.Offers a := by
  have offered : ∀ a ∈ (Body.construct b).accesses, g.Offers a := by
    intro a ha
    obtain ⟨j, -, access⟩ := access_of_construction h ha
    exact offers_of_access access
  obtain ⟨args, -, h⟩ := bind_eq_ok.1 h
  obtain ⟨fields, -, h⟩ := bind_eq_ok.1 h
  cases h
  exact ⟨rfl, rfl, offered⟩

/-- The body of a definition is an access, or the construction of the class that it is. -/
lemma cases_of_body {d : Definition} {b : Body} (h : g.body d = .ok b) :
    (∃ a, b = .access a ∧ g.Offers a) ∨
      ∃ c k, d.core = .cls c ∧ g.construction c = .ok k ∧ b = .construct k := by
  induction d using Definition.id.induct with
  | case1 c =>
    obtain ⟨k, hk⟩ := exists_of_map_eq_ok h
    rw [body, hk] at h
    cases h
    exact .inr ⟨c, k, rfl, hk, rfl⟩
  | case2 a =>
    simp only [body] at h
    split at h
    · cases h
      exact .inl ⟨_, rfl, .inl rfl⟩
    · obtain ⟨x, hx⟩ := exists_of_map_eq_ok h
      rw [hx] at h
      cases h
      exact .inl ⟨x, rfl, offers_of_access hx⟩
  | case3 =>
    cases h
    exact .inl ⟨_, rfl, .inl rfl⟩
  | case4 id =>
    obtain ⟨x, hx⟩ := exists_of_map_eq_ok h
    rw [body, hx] at h
    cases h
    exact .inl ⟨x, rfl, offers_of_access hx⟩
  | case5 inner _ _ ih => exact ih h

@[simp] lemma body_core (d : Definition) : g.body d.core = g.body d :=
  Definition.apply_core g.body (fun _ _ _ => rfl) d

lemma exists_construct_of_body {d : Definition} {b : Body} {c : ClassDefinition}
    (h : g.body d = .ok b) (hc : d.core = .cls c) : ∃ k, b = .construct k ∧ k.cls = c.id := by
  rw [← body_core, hc] at h
  obtain ⟨k, hk⟩ := exists_of_map_eq_ok h
  rw [body, hk] at h
  cases h
  exact ⟨k, rfl, (offers_of_construction hk).1⟩

/-! ### What definitions give rise to -/

lemma cases_of_placed {d : Definition} {name : String} {p : Body × List PlacedBody}
    (h : g.placed d name = .ok p) :
    ∃ b, g.body d = .ok b ∧
      (d.isFileBased = false ∧ p = (b, []) ∨
        d.isFileBased = true ∧ p = (.splice name, [⟨name, d.id, b⟩])) := by
  obtain ⟨b, hb, h⟩ := bind_eq_ok.1 h
  refine ⟨b, hb, ?_⟩
  split at h
  · next placed =>
    cases h
    exact .inr ⟨placed, rfl⟩
  · next placed =>
    cases h
    exact .inl ⟨by simpa using placed, rfl⟩

lemma cases_of_emitPlain {d : Definition} {em : Emission} (h : g.emitPlain d = .ok em) {b : Body}
    (hb : b ∈ em.bodies) : g.body d = .ok b ∨ ∃ p ∈ em.files, b = .splice p.name := by
  simp only [emitPlain] at h
  split at h
  · obtain ⟨p, hp, h⟩ := bind_eq_ok.1 h
    cases h
    obtain ⟨b', hb', ⟨-, rfl⟩ | ⟨-, rfl⟩⟩ := cases_of_placed hp
    · obtain rfl : b = b' := by simpa [Emission.bodies] using hb
      exact .inl hb'
    · obtain rfl | rfl : b = .splice (factoryName d.id) ∨ b = b' := by
        simpa [Emission.bodies] using hb
      · exact .inr ⟨_, List.mem_cons_self, rfl⟩
      · exact .inl hb'
  · split at h
    · obtain ⟨b', hb', h⟩ := bind_eq_ok.1 h
      cases h
      obtain rfl : b = b' := by simpa [Emission.bodies] using hb
      exact .inl hb'
    · cases h
      simp [Emission.bodies] at hb

lemma cases_of_emitProxy {inner : Definition} {fileBased : Bool} {always : List String}
    {em : Emission} (h : g.emitProxy inner fileBased always = .ok em) {b : Body}
    (hb : b ∈ em.bodies) :
    g.body inner = .ok b ∨ (∃ p ∈ em.files, b = .splice p.name) ∨
      ∃ units, ∃ f ∈ em.factories, b = .proxy units f.name := by
  obtain ⟨p, hp, h⟩ := bind_eq_ok.1 h
  cases h
  obtain ⟨b', hb', placed⟩ := cases_of_placed hp
  -- the body goes to a file or not, and so does the proxy before it
  obtain ⟨-, rfl⟩ | ⟨-, rfl⟩ := placed <;> cases fileBased <;>
    simp [Emission.bodies] at hb
  · rcases hb with rfl | rfl
    · exact .inl hb'
    · simp
  · rcases hb with rfl | rfl | rfl
    · exact .inl hb'
    · simp
    · simp
  · rcases hb with rfl | rfl | rfl
    · simp
    · simp
    · exact .inl hb'
  · rcases hb with rfl | rfl | rfl | rfl
    · simp
    · simp
    · exact .inl hb'
    · simp

/-- What a definition gives rise to are its own body, splices of its files and proxies before its
methods. -/
lemma cases_of_emit {d : Definition} {em : Emission} (h : g.emit d = .ok em) {b : Body}
    (hb : b ∈ em.bodies) :
    g.body d = .ok b ∨ (∃ p ∈ em.files, b = .splice p.name) ∨
      ∃ units, ∃ f ∈ em.factories, b = .proxy units f.name := by
  cases d with
  | autoloaded inner fileBased always => exact cases_of_emitProxy h hb
  | container id => exact (cases_of_emitPlain (d := .container id) h hb).imp_right .inl
  | cls | «alias» | perConsumer => exact (cases_of_emitPlain h hb).imp_right .inl

end Graph

/-! ### Containers of graphs -/

variable {g : Graph} {config : Config} {c : Container}

/-- What is constructed in place is constructed by way of a file, too. -/
lemma constructs_of_placed {d : Definition} {cls : ClassDefinition} (hcls : d.core = .cls cls)
    {name : String} {p : Body × List PlacedBody} (h : g.placed d name = .ok p)
    (files : p.2 ⊆ c.files) : c.Constructs p.1 cls.id := by
  obtain ⟨b, hb, placed⟩ := Graph.cases_of_placed h
  obtain ⟨k, rfl, hk⟩ := Graph.exists_construct_of_body hb hcls
  have constructs : c.Constructs (.construct k) cls.id := hk ▸ .construct k
  rcases placed with ⟨-, rfl⟩ | ⟨-, rfl⟩
  · exact constructs
  · exact .splice (files List.mem_cons_self) constructs

section Container

variable (built : g.container config = .ok c)
include built

/-- All that a definition gives rise to is in the container. -/
lemma exists_emission {k : Identifier} {d : Definition} (hk : g.find? k = some d) :
    ∃ em, g.emit d = .ok em ∧ em.factories ⊆ c.factories ∧ em.files ⊆ c.files := by
  obtain ⟨-, -, ems, hems, factories, files⟩ := exists_emissions built
  obtain ⟨em, mem, hem⟩ := (exists_mem_of_mapM_eq_ok hems).1 d (Graph.mem_emissionOrder.2 ⟨k, hk⟩)
  rw [factories, files]
  exact ⟨em, hem, fun f hf => List.mem_flatMap.2 ⟨em, mem, hf⟩,
    fun p hp => List.mem_flatMap.2 ⟨em, mem, hp⟩⟩

/-- Each body of the container is that of a definition, a splice of a file or a proxy before a
method. -/
lemma cases_of_mem_bodies {b : Body} (hb : b ∈ c.bodies) :
    (∃ k d, g.find? k = some d ∧ g.body d = .ok b) ∨ (∃ p ∈ c.files, b = .splice p.name) ∨
      ∃ units, ∃ f ∈ c.factories, b = .proxy units f.name := by
  obtain ⟨-, -, ems, hems, factories, files⟩ := exists_emissions built
  obtain ⟨em, mem, hb⟩ : ∃ em ∈ ems, b ∈ em.bodies := by
    rw [Container.bodies, factories, files, List.map_flatMap, List.map_flatMap] at hb
    rcases List.mem_append.1 hb with hb | hb
    · obtain ⟨em, mem, hb⟩ := List.mem_flatMap.1 hb
      exact ⟨em, mem, List.mem_append_left _ hb⟩
    · obtain ⟨em, mem, hb⟩ := List.mem_flatMap.1 hb
      exact ⟨em, mem, List.mem_append_right _ hb⟩
  obtain ⟨k, d, hk, hem⟩ := Graph.exists_emit_of_mem hems mem
  rcases Graph.cases_of_emit hem hb with own | ⟨p, hp, rfl⟩ | ⟨units, f, hf, rfl⟩
  · exact .inl ⟨k, d, hk, own⟩
  · rw [files]
    exact .inr (.inl ⟨p, List.mem_flatMap.2 ⟨em, mem, hp⟩, rfl⟩)
  · rw [factories]
    exact .inr (.inr ⟨units, f, List.mem_flatMap.2 ⟨em, mem, hf⟩, rfl⟩)

lemma mem_methods {k : Identifier} {d : Definition} (hk : g.find? k = some d)
    {name : String} (hn : name ∈ d.methodNames) : name ∈ c.factories.map (·.name) := by
  rw [map_name_factories built]
  exact List.mem_flatMap.2 ⟨d, Graph.mem_emissionOrder.2 ⟨k, hk⟩, hn⟩

lemma mem_files {k : Identifier} {d : Definition} (hk : g.find? k = some d)
    {name : String} (hn : name ∈ d.fileNames) : name ∈ c.files.map (·.name) := by
  rw [map_name_files built]
  exact List.mem_flatMap.2 ⟨d, Graph.mem_emissionOrder.2 ⟨k, hk⟩, hn⟩

variable (keyed : ∀ k d, g.find? k = some d → d.id = k)
include keyed

/-- A method that has the name of an identifier is one of the identifier. -/
lemma mem_methodNames {k : Identifier} {d : Definition} (hk : g.find? k = some d)
    (taken : factoryName k ∈ memberNames k d) (h : factoryName k ∈ c.factories.map (·.name)) :
    factoryName k ∈ d.methodNames := by
  obtain ⟨k', d', hk', hn⟩ := exists_of_mem_methods built h
  obtain rfl := (exists_emissions built).1.eq_of_named keyed hk' hk (.inl hn) taken
  cases hk.symm.trans hk'
  exact hn

/-- The method of a class builds it, with or without a proxy, or else its file does. -/
lemma builds_of_core {k : Identifier} {d : Definition} {cls : ClassDefinition}
    (hk : g.find? k = some d) (hcls : d.core = .cls cls) : c.Builds (factoryName k) cls.id := by
  obtain ⟨em, hem, factories, files⟩ := exists_emission built hk
  obtain rfl : d.id = k := keyed k d hk
  cases d with
  | cls c' =>
    simp only [Graph.emit, Graph.emitPlain] at hem
    split at hem
    · obtain ⟨p, hp, hem⟩ := bind_eq_ok.1 hem
      cases hem
      exact .inl ⟨_, factories List.mem_cons_self, rfl, constructs_of_placed hcls hp files⟩
    · next hm =>
      obtain ⟨b, hb, hem⟩ := bind_eq_ok.1 hem
      cases hem
      obtain ⟨k, rfl, hid⟩ := Graph.exists_construct_of_body hb hcls
      refine .inr ⟨fun h => ?_, _, files List.mem_cons_self, rfl, hid ▸ .construct k⟩
      have named := mem_methodNames built keyed hk List.mem_cons_self h
      simp [Definition.methodNames, hm] at named
  | autoloaded inner fileBased always =>
    obtain ⟨p, hp, hem⟩ := bind_eq_ok.1 hem
    cases hem
    have inner_builds : c.Constructs p.1 cls.id :=
      constructs_of_placed (d := inner) hcls hp fun q hq => files (List.mem_append_left _ hq)
    have proxy : ∀ units, c.Constructs
        (.proxy units (factoryName inner.id ++ innerSuffix)) cls.id := fun units =>
      .proxy (factories List.mem_cons_self) inner_builds
    refine .inl ⟨_, factories (List.mem_cons_of_mem _ List.mem_cons_self), rfl, ?_⟩
    cases fileBased with
    | true => exact .splice (files (List.mem_append_right _ List.mem_cons_self)) (proxy _)
    | false => exact proxy _
  | «alias» | container | perConsumer => cases hcls

/-- A kept instance has a field of the type that is built. -/
lemma exists_cache {k : Identifier} (kept : g.isCached k) : ∃ cls,
    (⟨factoryName k, "Arc<" ++ cls ++ ">"⟩ : Cache) ∈ c.caches ∧ c.Builds (factoryName k) cls := by
  obtain ⟨d, hk, keeps⟩ := (Option.any_eq_true _ _).1 kept
  obtain ⟨cls, hcls⟩ := Definition.exists_core_of_keepsInstance keeps
  refine ⟨cls.id, ?_, builds_of_core built keyed hk hcls⟩
  rw [(exists_emissions built).2.1]
  refine List.mem_map.2 ⟨d, List.mem_filter.2 ⟨Graph.mem_emissionOrder.2 ⟨k, hk⟩, ?_⟩, ?_⟩
  · rw [keyed k d hk]
    exact kept
  · rw [keyed k d hk, ← Definition.instanceType_core, hcls]
    rfl

/-- What an access calls, splices in or reads is there for it. -/
lemma links_of_offers {a : Access} (h : g.Offers a) :
    (∀ n ∈ a.calls, n ∈ c.factories.map (·.name)) ∧ (∀ n ∈ a.splices, n ∈ c.files.map (·.name)) ∧
      ∀ n ∈ a.reads, ∃ k, n = factoryName k ∧ g.isCached k := by
  obtain rfl | ⟨k, d, hk, kind, rfl⟩ := h
  · simp [Access.calls, Access.splices, Access.reads]
  have hid : d.id = k := keyed k d hk
  refine ⟨fun n hn => ?_, fun n hn => ?_, fun n hn => ?_⟩
  · cases hs : g.isSpliced k with
    | true =>
      rw [hs] at hn
      cases hn
    | false =>
      rw [hs] at hn
      obtain rfl := List.mem_singleton.1 hn
      apply mem_methods built hk
      rcases kind with ⟨cls, rfl⟩ | ⟨inner, fileBased, always, rfl⟩
      · have method : Graph.hasMethod (.cls cls) := by
          simp only [Graph.isSpliced, hk] at hs
          cases he : cls.entryPoint <;> simp_all [Graph.hasMethod]
        simp [Definition.methodNames, method, hid]
      · simp [Definition.methodNames, ← hid, Definition.id]
  · cases hs : g.isSpliced k with
    | false =>
      rw [hs] at hn
      cases hn
    | true =>
      rw [hs] at hn
      obtain rfl := List.mem_singleton.1 hn
      apply mem_files built hk
      rcases kind with ⟨cls, rfl⟩ | ⟨inner, fileBased, always, rfl⟩
      · have placed : cls.fileBased := by
          simp only [Graph.isSpliced, hk] at hs
          exact (Bool.and_eq_true_iff.1 hs).1
        simp [Definition.fileNames, Definition.isFileBased, Definition.isWritten, placed, hid]
      · simp [Graph.isSpliced, hk] at hs
  · cases kept : g.isCached k with
    | false =>
      rw [kept] at hn
      cases hn
    | true =>
      rw [kept] at hn
      exact ⟨k, List.mem_singleton.1 hn, kept⟩

/-- What a body calls, splices in, reads or fills is there. -/
lemma links_of_mem_bodies {b : Body} (hb : b ∈ c.bodies) :
    (∀ n ∈ b.calls, n ∈ c.factories.map (·.name)) ∧ (∀ n ∈ b.splices, n ∈ c.files.map (·.name)) ∧
      ∀ n ∈ b.keeps, ∃ k, n = factoryName k ∧ g.isCached k := by
  rcases cases_of_mem_bodies built hb with
    ⟨k, d, hk, own⟩ | ⟨p, hp, rfl⟩ | ⟨units, f, hf, rfl⟩
  · rcases Graph.cases_of_body own with ⟨a, rfl, ha⟩ | ⟨cls, b, -, hcons, rfl⟩
    · simpa [Body.calls, Body.splices, Body.keeps, Body.accesses] using
        links_of_offers built keyed ha
    obtain ⟨-, cache, offered⟩ := Graph.offers_of_construction hcons
    have links := fun a ha => links_of_offers built keyed (offered a ha)
    refine ⟨fun n hn => ?_, fun n hn => ?_, fun n hn => ?_⟩
    · have hn := (List.mem_append.1 hn).resolve_right List.not_mem_nil
      obtain ⟨a, ha, hn⟩ := List.mem_flatMap.1 hn
      exact (links a ha).1 n hn
    · have hn := (List.mem_append.1 hn).resolve_right List.not_mem_nil
      obtain ⟨a, ha, hn⟩ := List.mem_flatMap.1 hn
      exact (links a ha).2.1 n hn
    · rcases List.mem_append.1 hn with hn | hn
      · obtain ⟨a, ha, hn⟩ := List.mem_flatMap.1 hn
        exact (links a ha).2.2 n hn
      · have hn : n ∈ b.cache.toList := hn
        rw [cache] at hn
        split at hn
        · next kept => exact ⟨cls.id, by simpa using hn, kept⟩
        · cases hn
  · refine ⟨?_, ?_, ?_⟩
    · simp [Body.calls, Body.accesses]
    · intro n hn
      obtain rfl : n = p.name := by simpa [Body.splices, Body.accesses] using hn
      exact List.mem_map_of_mem hp
    · simp [Body.keeps, Body.accesses]
  · refine ⟨?_, ?_, ?_⟩
    · intro n hn
      obtain rfl : n = f.name := by simpa [Body.calls, Body.accesses] using hn
      exact List.mem_map_of_mem hf
    · simp [Body.splices, Body.accesses]
    · simp [Body.keeps, Body.accesses]

/-- There is no line feed in a name that a body refers to. -/
lemma newline_not_mem_of_mem_bodies {b : Body} (hb : b ∈ c.bodies) {name : String}
    (h : name ∈ b.calls ∨ name ∈ b.keeps ∨ name ∈ b.splices) : '\n' ∉ name.toList := by
  have plain : (∀ ch ∈ name.toList, isNameChar ch) → '\n' ∉ name.toList := fun named feed =>
    absurd (named '\n' feed) (by decide)
  have own : ∀ {d : Definition}, name ∈ d.methodNames ∨ name ∈ d.fileNames →
      '\n' ∉ name.toList := fun named =>
    plain fun ch => isNameChar_of_mem_memberNames (Graph.mem_memberNames_of_mem named)
  obtain ⟨calls, splices, keeps⟩ := links_of_mem_bodies built keyed hb
  rcases h with h | h | h
  · obtain ⟨k, d, -, named⟩ := exists_of_mem_methods built (calls name h)
    exact own (.inl named)
  · obtain ⟨k, rfl, -⟩ := keeps name h
    exact plain fun ch => isNameChar_of_mem_factoryName
  · have file := splices name h
    rw [map_name_files built] at file
    obtain ⟨d, -, named⟩ := List.mem_flatMap.1 file
    exact own (.inr named)

/-- What is spliced in is a file. -/
lemma exists_of_splice {b : Body} (hb : b ∈ c.bodies) {site : Site} {path : String}
    (h : .splice path ∈ (b.code config.directory site).pieces) :
    ∃ p ∈ c.files, path = site.lead config.directory ++ p.name ++ ".rs" ∧
      config.directory ++ "/" ++ p.name ++ ".rs" ∈ (c.artifacts config).placed.keys := by
  obtain ⟨name, hn, rfl⟩ := Body.mem_pieces_splice.1 h
  obtain ⟨p, hp, rfl⟩ := List.mem_map.1 ((links_of_mem_bodies built keyed hb).2.1 name hn)
  exact ⟨p, hp, rfl, Container.mem_keys_artifacts.2 ⟨p, hp, (placedPath_eq ..).symm⟩⟩

variable (nodup : g.entryPoints.Nodup)
include nodup

/-- The files of a container are written for it. -/
theorem isWritten_of_container : c.IsWritten config (c.artifacts config) :=
  c.isWritten_artifacts (nodup_files built keyed nodup) fun _ hb _ =>
    newline_not_mem_of_mem_bodies built keyed hb

/-- The container of a graph is linked. -/
theorem isLinked_of_container : c.IsLinked config (c.artifacts config) where
  methods := nodup_factories built keyed nodup
  calls b hb site name hn :=
    (links_of_mem_bodies built keyed hb).1 name (Body.mem_pieces_call.1 hn)
  keeps b hb site name hn := by
    have kept := (links_of_mem_bodies built keyed hb).2.2 name (Body.mem_pieces_keep.1 hn)
    obtain ⟨k, rfl, kept⟩ := kept
    exact exists_cache built keyed kept
  fields := nodup_caches built keyed nodup
  mainSplices f hf path h := by
    have hb : f.body ∈ c.bodies := List.mem_append_left _ (List.mem_map_of_mem hf)
    obtain ⟨p, hp, rfl, key⟩ := exists_of_splice built keyed hb h
    exact ⟨p, hp, rfl, key⟩
  placedSplices p hp path h := by
    have hb : p.body ∈ c.bodies := List.mem_append_right _ (List.mem_map_of_mem hp)
    obtain ⟨q, hq, rfl, key⟩ := exists_of_splice built keyed hb h
    exact ⟨q, hq, by rw [Site.lead, String.empty_append], key⟩
  shown := by
    have shown := (isWritten_of_container built keyed nodup).mainShown
    constructor
    · intro all
      by_cases none : ∀ f ∈ c.factories, f.body.splices = []
      · exact .inr none
      left
      push Not at none
      obtain ⟨f, hf, spliced⟩ := none
      obtain ⟨name, hn⟩ := List.exists_mem_of_ne_nil _ spliced
      have piece : .splice (Site.main.lead config.directory ++ name ++ ".rs") ∈
          (f.body.code config.directory .main).pieces := Body.mem_pieces_splice.2 ⟨name, hn, rfl⟩
      exact (shown f hf _ piece rfl).1 (all f hf _ piece) rfl
    · rintro (plain | none) f hf path hp
      · exact (shown f hf _ hp rfl).2 fun _ => plain
      · obtain ⟨name, hn, -⟩ := Body.mem_pieces_splice.1 hp
        rw [none f hf] at hn
        cases hn

end Container

open Wiring

/-- The files of the container of a resolved graph are written for it, and whatever its code refers
to is there. -/
theorem isLinked_of_compile {w : Wiring} {entry : Option Identifier} {files : Artifacts}
    (h : w.resolveFor entry = .ok g) (compiles : g.compile config = .ok files) :
    ∃ c, g.container config = .ok c ∧ files = c.artifacts config ∧ c.IsWritten config files ∧
      c.IsLinked config files := by
  obtain ⟨c, built⟩ := exists_of_map_eq_ok compiles
  obtain rfl : files = c.artifacts config := by
    rw [Graph.compile, built] at compiles
    exact (Except.ok.inj compiles).symm
  obtain ⟨g₀, always, yields, rfl⟩ := exists_of_resolveFor h
  have keyed : ∀ k d, (w.wrapEntries always g₀).find? k = some d → d.id = k := by
    intro k d hk
    rw [← Definition.id_core]
    exact yields.original.id_eq (yields.find?_core hk)
  have nodup : (w.wrapEntries always g₀).entryPoints.Nodup := by
    rw [entryPoints_wrapEntries, yields.entryPoints]
    exact nodup_firstOccurrences _
  exact ⟨c, built, rfl, isWritten_of_container built keyed nodup,
    isLinked_of_container built keyed nodup⟩

/-- A service behind a proxy, whose bodies go to files, with a store that is a disk. -/
def placedWiring : Wiring where
  config := {}
  provider := Metadata.provider <| .ofList
    [("Service",
      { source := some "service", parameters := [{ name := "store", type := some "Store" }] }),
      ("Disk", { parameters := [{ name := "container", type := some "Container" }] })]
  mode := .compile
  entries := ⟨[{ ids := ["Service"], fileBased := true, autoload := true }]⟩
  hints := ⟨.ofList [("Store", .byClass "Disk" {})], []⟩

theorem isLinked_placedWiring :
    ∃ g files c, placedWiring.resolveFor none = .ok g ∧
      g.compile placedWiring.config = .ok files ∧ g.container placedWiring.config = .ok c ∧
      c.bodies.flatMap Body.calls = ["Service__autoloaded"] ∧
      c.bodies.flatMap Body.splices = ["Service", "Service__proxy", "Disk"] ∧
      c.bodies.flatMap Body.keeps = ["Disk", "Service", "Disk"] ∧
      c.IsWritten placedWiring.config files ∧ c.IsLinked placedWiring.config files := by
  have resolves : placedWiring.passesWithin 40 ["Service"]
      (·.containerPasses placedWiring.config fun c =>
        c.bodies.flatMap Body.calls = ["Service__autoloaded"] ∧
        c.bodies.flatMap Body.splices = ["Service", "Service__proxy", "Disk"] ∧
        c.bodies.flatMap Body.keeps = ["Disk", "Service", "Disk"]) = true := by
    decide +kernel
  obtain ⟨g, hg, passes⟩ := exists_of_passesWithin resolves
  obtain ⟨c, hc, refs⟩ := Graph.exists_of_containerPasses passes
  obtain ⟨calls, splices, keeps⟩ := of_decide_eq_true refs
  have h : placedWiring.resolveFor none = .ok g := hg
  have compiles : g.compile placedWiring.config = .ok (c.artifacts placedWiring.config) := by
    rw [Graph.compile, hc]
    rfl
  obtain ⟨c', hc', -, written, linked⟩ := isLinked_of_compile h compiles
  cases hc.symm.trans hc'
  exact ⟨g, _, c, h, compiles, hc, calls, splices, keeps, written, linked⟩

/-- A job that goes to a file of its own. -/
def filedWiring (directory containerFile : String) : Wiring where
  config := { files := { directory }, output := { containerFile } }
  provider := Metadata.provider <| .ofList [("Job", {})]
  mode := .compile
  entries := ⟨[{ ids := ["Job"], fileBased := true }]⟩
  hints := {}

/-- If there is a line feed in the path of the directory of the files, the main file indents what
follows it, and so splices in a path that is not that of the file. -/
theorem breaks_filedWiring :
    ∃ g files, (filedWiring "a\nb" "container.rs").resolveFor none = .ok g ∧
      g.compile (filedWiring "a\nb" "container.rs").config = .ok files ∧
      files.placed.keys = ["a\nb/Job.rs"] ∧
      (∃ before after, files.mainText = before ++
        unlines ["    pub fn Job(self: &Arc<Self>) -> Arc<Job> \x7b",
          "        include!(\"a", "        b/Job.rs\")", "    \x7d"] ++ after) ∧
      ¬IsOnLine "include!(\"a\nb/Job.rs\")" files.mainText := by
  have resolves : (filedWiring "a\nb" "container.rs").passesWithin 40 ["Job"]
      (·.containerPasses (filedWiring "a\nb" "container.rs").config fun c =>
        (c.artifacts (filedWiring "a\nb" "container.rs").config).placed.keys = ["a\nb/Job.rs"] ∧
        ∃ f ∈ c.factories, f.lines (filedWiring "a\nb" "container.rs").config.directory =
          ["", "    /// Returns `Job`."] ++ ["    pub fn Job(self: &Arc<Self>) -> Arc<Job> \x7b",
            "        include!(\"a", "        b/Job.rs\")", "    \x7d"]) = true := by
    decide +kernel
  obtain ⟨g, hg, passes⟩ := exists_of_passesWithin resolves
  obtain ⟨c, hc, passes⟩ := Graph.exists_of_containerPasses passes
  obtain ⟨keys, f, hf, lines⟩ := of_decide_eq_true passes
  have h : (filedWiring "a\nb" "container.rs").resolveFor none = .ok g := hg
  have compiles := Graph.compile_of_container hc
  obtain ⟨c', hc', -, written, -⟩ := isLinked_of_compile h compiles
  cases hc.symm.trans hc'
  refine ⟨g, _, h, compiles, keys, ?_, not_isOnLine (by decide)⟩
  obtain ⟨before, after, text⟩ := written.exists_of_mem_factories hf
  rw [lines, unlines_append, ← String.append_assoc] at text
  exact ⟨_, after, text⟩

end Injector
