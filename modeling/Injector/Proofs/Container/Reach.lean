import Injector.Proofs.Container.Links

/-!
# What bodies go on to

A body goes on to the methods that it calls and the files that it splices in. Each of these belongs
to a definition, and from definition to definition the way leads along dependencies only: what a
body can come to construct is needed by the definition that the body belongs to.
-/

namespace Injector

/-- A body goes on to another one: that of a method it calls, or of a file it splices in. -/
inductive Container.Enters (c : Container) (b : Body) : Body → Prop
  | call {f : Factory} (method : f ∈ c.factories) (named : f.name ∈ b.calls) : Enters c b f.body
  | splice {p : PlacedBody} (file : p ∈ c.files) (named : p.name ∈ b.splices) : Enters c b p.body

/-- A body belongs to a definition: it builds the instance, or hands over to a file or a method of
the definition. -/
inductive Definition.Gives (g : Graph) (d : Definition) : Body → Prop
  | own {b : Body} (h : g.body d = .ok b) : Gives g d b
  | splice {name : String} (file : name ∈ d.fileNames) : Gives g d (.splice name)
  | proxy (units : List String) {name : String} (method : name ∈ d.methodNames) :
      Gives g d (.proxy units name)

namespace Graph

variable {g : Graph}

/-- A body that builds an instance refers to what it gets at and to nothing else. -/
lemma refers_of_body {d : Definition} {b : Body} (h : g.body d = .ok b) :
    b.calls = b.accesses.flatMap Access.calls ∧ b.splices = b.accesses.flatMap Access.splices := by
  rcases cases_of_body h with ⟨a, rfl, -⟩ | ⟨_, _, -, -, rfl⟩ <;>
    exact ⟨List.append_nil _, List.append_nil _⟩

/-- A name that a body calls or splices in is that of a class or a proxy on the way of something
that it asks for. -/
lemma exists_way_of_body {d : Definition} {b : Body} (h : g.body d = .ok b) {name : String}
    (refers : name ∈ b.calls ∨ name ∈ b.splices) :
    ∃ q ∈ d.lookups, ∃ k' d', Relation.ReflTransGen (g.Passes q.1) q.2 k' ∧
      g.find? k' = some d' ∧ name = factoryName k' ∧ name ∈ memberNames k' d' ∧
      ((∃ c, d' = .cls c) ∨ ∃ inner fileBased always, d' = .autoloaded inner fileBased always) := by
  have access : ∃ a ∈ b.accesses, name ∈ a.calls ∨ name ∈ a.splices := by
    obtain ⟨calls, splices⟩ := refers_of_body h
    rw [calls, splices, List.mem_flatMap, List.mem_flatMap] at refers
    rcases refers with ⟨a, ha, hn⟩ | ⟨a, ha, hn⟩
    · exact ⟨a, ha, .inl hn⟩
    · exact ⟨a, ha, .inr hn⟩
  obtain ⟨a, ha, hn⟩ := access
  rcases access_of_body h ha with rfl | ⟨q, hq, hqa⟩
  · simp [Access.calls, Access.splices] at hn
  obtain ⟨t, ht⟩ := exists_of_map_eq_ok hqa
  rw [Graph.access, ht] at hqa
  cases hqa
  cases t with
  | container => simp [accessTo, Access.calls, Access.splices] at hn
  | factory k' =>
    obtain ⟨way, d', hd', kind⟩ := exists_factory_of_target? ht
    obtain rfl : name = factoryName k' := by
      cases hs : g.isSpliced k' <;> simpa [accessTo, Access.calls, Access.splices, hs] using hn
    refine ⟨q, hq, k', d', way, hd', rfl, ?_, kind⟩
    rcases kind with ⟨c, rfl⟩ | ⟨inner, fileBased, always, rfl⟩ <;> exact List.mem_cons_self

/-- Each body that a definition gives rise to belongs to it. -/
lemma gives_of_emit {d : Definition} {em : Emission} (h : g.emit d = .ok em) {b : Body}
    (hb : b ∈ em.bodies) : d.Gives g b := by
  obtain ⟨methods, files⟩ := names_of_emit h
  rcases cases_of_emit h hb with own | ⟨p, hp, rfl⟩ | ⟨units, f, hf, rfl⟩
  · exact .own own
  · apply Definition.Gives.splice
    rw [← files]
    exact List.mem_map_of_mem hp
  · apply Definition.Gives.proxy
    rw [← methods]
    exact List.mem_map_of_mem hf

/-- Only a class gives a construction, which is one of that class. -/
lemma core_of_gives {d : Definition} {b : Construction} (h : d.Gives g (.construct b)) :
    ∃ c, d.core = .cls c ∧ c.id = b.cls := by
  cases h with
  | own own =>
    rcases cases_of_body own with ⟨a, eq, -⟩ | ⟨c, b', hc, hb, eq⟩
    · cases eq
    · cases eq
      exact ⟨c, hc, (offers_of_construction hb).1.symm⟩

end Graph

section Container

variable {g : Graph} {config : Config} {c : Container} (built : g.container config = .ok c)
  (keyed : ∀ k d, g.find? k = some d → d.id = k)

include built

/-- Every method is one of a definition, and its body belongs to it. -/
lemma exists_gives_of_factory {f : Factory} (hf : f ∈ c.factories) :
    ∃ k d, g.find? k = some d ∧ f.name ∈ d.methodNames ∧ d.Gives g f.body := by
  obtain ⟨-, -, ems, hems, factories, -⟩ := exists_emissions built
  rw [factories] at hf
  obtain ⟨em, mem, hf⟩ := List.mem_flatMap.1 hf
  obtain ⟨k, d, hk, hem⟩ := Graph.exists_emit_of_mem hems mem
  refine ⟨k, d, hk, ?_, Graph.gives_of_emit hem ?_⟩
  · rw [← (Graph.names_of_emit hem).1]
    exact List.mem_map_of_mem hf
  · exact List.mem_append_left _ (List.mem_map_of_mem hf)

/-- Every file is one of a definition, and its body belongs to it. -/
lemma exists_gives_of_file {p : PlacedBody} (hp : p ∈ c.files) :
    ∃ k d, g.find? k = some d ∧ p.name ∈ d.fileNames ∧ d.Gives g p.body := by
  obtain ⟨-, -, ems, hems, -, files⟩ := exists_emissions built
  rw [files] at hp
  obtain ⟨em, mem, hp⟩ := List.mem_flatMap.1 hp
  obtain ⟨k, d, hk, hem⟩ := Graph.exists_emit_of_mem hems mem
  refine ⟨k, d, hk, ?_, Graph.gives_of_emit hem ?_⟩
  · rw [← (Graph.names_of_emit hem).2]
    exact List.mem_map_of_mem hp
  · exact List.mem_append_right _ (List.mem_map_of_mem hp)

include keyed

/-- A body that is entered by a name belongs to the definition that has the name. -/
lemma gives_of_enters {b b' : Body} (enters : c.Enters b b') :
    ∃ name, (name ∈ b.calls ∨ name ∈ b.splices) ∧
      ∀ k d, g.find? k = some d → name ∈ memberNames k d → d.Gives g b' := by
  cases enters with
  | @call f hf named =>
    refine ⟨f.name, .inl named, fun k d hk taken => ?_⟩
    obtain ⟨j, e, hj, hn, gives⟩ := exists_gives_of_factory built hf
    obtain rfl := (exists_emissions built).1.eq_of_named keyed hj hk (.inl hn) taken
    cases hj.symm.trans hk
    exact gives
  | @splice p hp named =>
    refine ⟨p.name, .inr named, fun k d hk taken => ?_⟩
    obtain ⟨j, e, hj, hn, gives⟩ := exists_gives_of_file built hp
    obtain rfl := (exists_emissions built).1.eq_of_named keyed hj hk (.inr hn) taken
    cases hj.symm.trans hk
    exact gives

/-- What a body goes on to belongs to the same definition, or to one on the way of something that
the body asks for. -/
lemma exists_gives_of_enters {k : Identifier} {d : Definition} (hk : g.find? k = some d)
    {b b' : Body} (gives : d.Gives g b) (enters : c.Enters b b') :
    d.Gives g b' ∨ ∃ q ∈ d.lookups, ∃ k' d', Relation.ReflTransGen (g.Passes q.1) q.2 k' ∧
      g.find? k' = some d' ∧ d'.Gives g b' := by
  obtain ⟨name, refers, owner⟩ := gives_of_enters built keyed enters
  cases gives with
  | own own =>
    obtain ⟨q, hq, k', d', way, hk', -, taken, -⟩ := Graph.exists_way_of_body own refers
    exact .inr ⟨q, hq, k', d', way, hk', owner k' d' hk' taken⟩
  | @splice name' file =>
    left
    obtain rfl : name = name' := by
      simpa [Body.calls, Body.splices, Body.accesses] using refers
    exact owner k d hk (Graph.mem_memberNames_of_named keyed hk (.inr file))
  | @proxy units name' method =>
    left
    obtain rfl : name = name' := by
      simpa [Body.calls, Body.splices, Body.accesses] using refers
    exact owner k d hk (Graph.mem_memberNames_of_named keyed hk (.inl method))

end Container

open Wiring

/-- All that a body goes on to in the container of a resolved graph belongs to what is needed by the
definition that the body belongs to. -/
theorem Wiring.Yields.exists_gives_of_enters {w : Wiring} {roots : List Identifier} {g : Graph}
    (yields : w.Yields roots g) {always : List String} {config : Config} {c : Container}
    (built : (w.wrapEntries always g).container config = .ok c) {k : Identifier} {d : Definition}
    (hk : (w.wrapEntries always g).find? k = some d) {b b' : Body}
    (gives : d.Gives (w.wrapEntries always g) b) (way : Relation.ReflTransGen c.Enters b b') :
    ∃ k' d', Relation.ReflTransGen (w.wrapEntries always g).DependsOn k k' ∧
      (w.wrapEntries always g).find? k' = some d' ∧ d'.Gives (w.wrapEntries always g) b' := by
  induction way with
  | refl => exact ⟨k, d, .refl, hk, gives⟩
  | tail _ enters ih =>
    obtain ⟨j, e, needed, hj, gives⟩ := ih
    rcases Injector.exists_gives_of_enters built (yields.keyed always) hj gives enters with
      same | ⟨q, hq, k', d', passes, hk', gives'⟩
    · exact ⟨j, e, needed, hj, same⟩
    · exact ⟨k', d', needed.trans (dependsOn_of_way yields hj hq passes), hk', gives'⟩

end Injector
