import Injector.Proofs.Container.Links

/-!
# Nothing is written twice

A container of any graph that was put together by inserting definitions and changing them under
their identifiers, proxies included: each name in it is taken once, and each file goes to a path
that is free. So no body is lost.
-/

namespace Injector

namespace Graph

/-! ### Graphs that were put together -/

/-- A graph was put together: definitions were inserted, each where there was none yet, entry points
were declared, and definitions were changed without getting another identifier. -/
inductive IsBuilt : Graph → Prop
  | empty : IsBuilt {}
  | insertIfAbsent {g : Graph} (built : IsBuilt g) (d : Definition) : IsBuilt (g.insertIfAbsent d)
  | declare {g : Graph} (built : IsBuilt g) (k : Identifier) : IsBuilt (g.declare k)
  | adjust {g : Graph} (built : IsBuilt g) (k : Identifier) {f : Definition → Definition}
      (same : ∀ d, (f d).id = d.id) : IsBuilt (g.adjust k f)

namespace IsBuilt

variable {g : Graph}

/-- A proxy is a change of a definition. -/
lemma wrap (built : g.IsBuilt) (always : List String) (k : Identifier) :
    (g.wrap always k).IsBuilt :=
  built.adjust k (Definition.id_wrapped always)

/-- Each definition stands at its own identifier. -/
lemma keyed (built : g.IsBuilt) : ∀ k d, g.find? k = some d → d.id = k := by
  induction built with
  | empty =>
    intro k d hk
    cases hk
  | @insertIfAbsent g built d ih =>
    intro k d' hk
    rw [find?_insertIfAbsent] at hk
    split at hk
    · next at_d =>
      cases hd : g.find? k with
      | none =>
        rw [hd] at hk
        cases hk
        exact at_d.symm
      | some d₀ =>
        rw [hd] at hk
        cases hk
        exact ih k d₀ hd
    · exact ih k d' hk
  | declare built j ih =>
    intro k d hk
    rw [find?_declare] at hk
    exact ih k d hk
  | @adjust g built j f same ih =>
    intro k d hk
    rw [find?_adjust] at hk
    split at hk
    · obtain ⟨d₀, hd, rfl⟩ := Option.map_eq_some_iff.1 hk
      rw [same]
      exact ih k d₀ hd
    · exact ih k d hk

/-- Each entry point is listed once. -/
lemma nodup_entryPoints (built : g.IsBuilt) : g.entryPoints.Nodup := by
  induction built with
  | empty => exact List.nodup_nil
  | insertIfAbsent built d ih =>
    rw [entryPoints_insertIfAbsent]
    exact ih
  | declare built k ih =>
    simp only [Graph.declare]
    split
    · exact ih
    · next hk =>
      simpa using ih.concat hk
  | adjust built k same ih => exact ih

end IsBuilt

/-! ### Bodies that are written -/

variable {g : Graph}

lemma mem_placed {d : Definition} {name : String} {p : Body × List PlacedBody}
    (h : g.placed d name = .ok p) : ∃ b, g.body d = .ok b ∧ (p.1 = b ∨ b ∈ p.2.map (·.body)) := by
  obtain ⟨b, hb, placed⟩ := cases_of_placed h
  rcases placed with ⟨-, rfl⟩ | ⟨-, rfl⟩
  · exact ⟨b, hb, .inl rfl⟩
  · exact ⟨b, hb, .inr List.mem_cons_self⟩

/-- The body of a definition is among those that the definition gives rise to, if it is written. -/
lemma exists_body_mem_bodies {d : Definition} {em : Emission} (h : g.emit d = .ok em)
    (written : d.isWritten) : ∃ b, g.body d = .ok b ∧ b ∈ em.bodies := by
  have plain : ∀ {d}, d.isWritten → g.emitPlain d = .ok em →
      ∃ b, g.body d = .ok b ∧ b ∈ em.bodies := by
    intro d written h
    simp only [emitPlain] at h
    split at h
    · obtain ⟨p, hp, h⟩ := bind_eq_ok.1 h
      cases h
      obtain ⟨b, hb, rfl | mem⟩ := mem_placed hp
      · exact ⟨_, hb, List.mem_cons_self⟩
      · exact ⟨b, hb, List.mem_append_right _ mem⟩
    · next hm =>
      cases d with
      | cls c =>
        obtain ⟨b, hb, h⟩ := bind_eq_ok.1 h
        cases h
        exact ⟨b, hb, List.mem_cons_self⟩
      | «alias» | perConsumer => exact absurd written hm
      | container => cases written
      | autoloaded => exact absurd rfl hm
  cases d with
  | autoloaded inner fileBased always =>
    obtain ⟨p, hp, h⟩ := bind_eq_ok.1 h
    cases h
    obtain ⟨b, hb, rfl | mem⟩ := mem_placed hp
    · exact ⟨_, hb, List.mem_cons_self⟩
    · refine ⟨b, hb, List.mem_append_right _ ?_⟩
      rw [List.map_append]
      exact List.mem_append_left _ mem
  | cls | «alias» | container | perConsumer => exact plain written h

end Graph

/-! ### Containers -/

/-- No name of a container is taken twice, and no file lies over another one. -/
structure Container.IsDistinct (g : Graph) (config : Config) (c : Container) : Prop where
  /-- Each method is defined once, the ones behind proxies included. -/
  methods : (c.factories.map (·.name)).Nodup
  /-- No method takes the name of a member that every container has. -/
  ownMethods : ∀ f ∈ c.factories, f.name ∉ reservedMembers
  /-- Each field has a name of its own, those that every container has included. -/
  fields : (c.caches.map (·.name) ++ ["activated", "activator"]).Nodup
  /-- When a file is put into the table, there is none at its path yet. -/
  free : ∀ before p after, c.files = before ++ p :: after →
    (({ c with files := before } : Container).artifacts config).placed.contains
      (placedPath config.directory p.name) = false
  /-- What is in the table in the end are the files, all of them. -/
  files : (c.artifacts config).placed.size = c.files.length ∧ ∀ p ∈ c.files,
    (c.artifacts config).placed.find? (placedPath config.directory p.name) =
      some (p.text config.directory)
  /-- The body of each definition that is written is that of a method or of a file. -/
  bodies : ∀ k d, g.find? k = some d → d.isWritten → ∃ b, g.body d = .ok b ∧ b ∈ c.bodies

section Container

variable {g : Graph} {config : Config} {c : Container}

lemma Container.placed_artifacts (config : Config) (c : Container) :
    (c.artifacts config).placed = .ofList (c.files.map fun p =>
      (placedPath config.directory p.name, p.text config.directory)) :=
  rfl

/-- A file goes to a path at which no file before it lies. -/
lemma contains_of_files_eq {before after : List PlacedBody} {p : PlacedBody}
    (nodup : (c.files.map (·.name)).Nodup) (eq : c.files = before ++ p :: after) :
    (({ c with files := before } : Container).artifacts config).placed.contains
      (placedPath config.directory p.name) = false := by
  rw [eq, List.map_append, List.map_cons] at nodup
  have apart := (List.nodup_append'.1 nodup).2.2
  apply eq_false_of_ne_true
  intro taken
  rw [Container.placed_artifacts] at taken
  obtain ⟨text, mem⟩ := contains_ofList.1 taken
  obtain ⟨q, hq, path⟩ := List.mem_map.1 mem
  have name : q.name = p.name := placedPath_injective config.directory (congrArg Prod.fst path)
  exact apart (List.mem_map_of_mem hq) (name ▸ List.mem_cons_self)

/-- Methods take none of the common names. -/
lemma not_mem_reservedMembers (built : g.container config = .ok c)
    (keyed : ∀ k d, g.find? k = some d → d.id = k) {f : Factory} (hf : f ∈ c.factories) :
    f.name ∉ reservedMembers := by
  obtain ⟨k, d, hk, named⟩ := exists_of_mem_methods built (List.mem_map_of_mem hf)
  have taken := Graph.mem_memberNames_of_named keyed hk (.inl named)
  exact (exists_emissions built).1.free _ (Graph.mem_allMemberNames hk taken)

/-- The fields that every container has are reserved. -/
lemma nodup_fields (built : g.container config = .ok c)
    (keyed : ∀ k d, g.find? k = some d → d.id = k) (nodup : g.entryPoints.Nodup) :
    (c.caches.map (·.name) ++ ["activated", "activator"]).Nodup := by
  obtain ⟨caches, own⟩ := nodup_caches built keyed nodup
  refine List.nodup_append'.2 ⟨caches, by decide, ?_⟩
  intro name hc common
  obtain ⟨f, hf, rfl⟩ := List.mem_map.1 hc
  have reserved : f.name ∈ reservedMembers := by
    rcases List.mem_pair.1 common with h | h <;> simp [h, reservedMembers]
  exact own f hf reserved

/-- The container of a graph that was put together has each name once, and no file of it lies over
another one. -/
theorem isDistinct_of_compile {files : Artifacts} (built : g.IsBuilt)
    (compiles : g.compile config = .ok files) :
    ∃ c, g.container config = .ok c ∧ files = c.artifacts config ∧ c.IsWritten config files ∧
      c.IsDistinct g config := by
  obtain ⟨c, hc, rfl⟩ := Graph.exists_container_of_compile compiles
  have keyed := built.keyed
  have nodup := built.nodup_entryPoints
  have names : (c.files.map (·.name)).Nodup := nodup_files hc keyed nodup
  refine ⟨c, hc, rfl, isWritten_of_container hc keyed nodup, ?_⟩
  constructor
  case methods => exact nodup_factories hc keyed nodup
  case ownMethods => exact fun f hf => not_mem_reservedMembers hc keyed hf
  case fields => exact nodup_fields hc keyed nodup
  case free => exact fun before p after eq => contains_of_files_eq names eq
  case files =>
    have paths := nodup_paths config names
    rw [Container.placed_artifacts]
    exact ⟨(size_ofList paths).trans (List.length_map _),
      fun p hp => find?_ofList paths (List.mem_map_of_mem hp)⟩
  case bodies =>
    intro k d hk written
    obtain ⟨em, hem, factories, files⟩ := exists_emission hc hk
    obtain ⟨b, hb, mem⟩ := Graph.exists_body_mem_bodies hem written
    refine ⟨b, hb, ?_⟩
    rcases List.mem_append.1 mem with mem | mem
    · exact List.mem_append_left _ (List.map_subset _ factories mem)
    · exact List.mem_append_right _ (List.map_subset _ files mem)

end Container

/-- A job behind a proxy, with a file of its own, that needs a clock; and another name for the job. -/
def jobGraph : Graph :=
  (((({} : Graph).declare "Job").insertIfAbsent
      (.cls { id := "Job", entryPoint := true, fileBased := true,
              arguments := [⟨0, "clock", .dependency "Clock"⟩] })).insertIfAbsent
    (.cls { id := "Clock", fileBased := true, referrers := .ofList [("Job", ⟨1, true⟩)] })).insertIfAbsent
      (.alias { id := "Task", target := "Job", entryPoint := true }) |>.wrap ["base"] "Job"

/-- The job has two methods and two files. -/
theorem isDistinct_jobGraph :
    jobGraph.IsBuilt ∧ ∃ c, jobGraph.container {} = .ok c ∧
      jobGraph.compile {} = .ok (c.artifacts {}) ∧
      c.factories.map (·.name) = ["Job__autoloaded", "Job", "Task"] ∧
      c.files.map (·.name) = ["Job", "Job__proxy", "Clock"] ∧
      c.caches.map (·.name) = ["Job", "Clock"] ∧ c.IsWritten {} (c.artifacts {}) ∧
      c.IsDistinct jobGraph {} := by
  have passes : jobGraph.containerPasses {} (fun c =>
      c.factories.map (·.name) = ["Job__autoloaded", "Job", "Task"] ∧
      c.files.map (·.name) = ["Job", "Job__proxy", "Clock"] ∧
      c.caches.map (·.name) = ["Job", "Clock"]) = true := by
    decide +kernel
  obtain ⟨c, hc, names⟩ := Graph.exists_of_containerPasses passes
  obtain ⟨methods, files, caches⟩ := of_decide_eq_true names
  have built : jobGraph.IsBuilt :=
    ((((Graph.IsBuilt.empty.declare _).insertIfAbsent _).insertIfAbsent _).insertIfAbsent _).wrap
      _ _
  have compiles := Graph.compile_of_container hc
  obtain ⟨c', hc', -, written, distinct⟩ := isDistinct_of_compile built compiles
  cases hc.symm.trans hc'
  exact ⟨built, c, hc, compiles, methods, files, caches, written, distinct⟩

end Injector
