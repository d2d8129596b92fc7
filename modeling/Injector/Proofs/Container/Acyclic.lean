import Injector.Proofs.Container.Reach

/-!
# Containers without cycles

A body goes on to methods and files. From one definition to another it does so along dependencies
only; within a definition it goes from its method to the file of its proxy, then to the method
behind the proxy, then to the file of that. So if dependencies have no cycles, neither have bodies:
no method is entered again while it runs, and no file splices itself in.
-/

namespace Injector

open Relation

/-! ### Places of bodies -/

/-- Where a body stands: in a method or in a file. -/
inductive Place
  | method (name : String)
  | file (name : String)
deriving DecidableEq, Repr

namespace Place

def name : Place → String
  | method name => name
  | file name => name

/-- How many places of the same definition may lie behind a place, `own` being the factory name. -/
def rank (own : String) : Place → Nat
  | method name => if name = own then 3 else 1
  | file name => if name = own then 0 else 2

end Place

/-- The places that a body goes on to: the methods that it calls and the files that it splices in.
Literals and paths that were given as values are no calls. -/
def Body.places (b : Body) : List Place := b.calls.map .method ++ b.splices.map .file

/-- The bodies of methods and of files, where they stand. -/
def placesOf (factories : List Factory) (files : List PlacedBody) : List (Place × Body) :=
  factories.map (fun f => (.method f.name, f.body)) ++ files.map fun p => (.file p.name, p.body)

/-- The body at a place goes on to another place. -/
def Container.Refers (c : Container) (m n : Place) : Prop :=
  ∃ b, (m, b) ∈ placesOf c.factories c.files ∧ n ∈ b.places

instance (c : Container) : DecidableRel c.Refers := fun m n =>
  decidable_of_iff (∃ e ∈ placesOf c.factories c.files, e.1 = m ∧ n ∈ e.2.places) <| by
    constructor
    · rintro ⟨⟨_, b⟩, mem, rfl, hn⟩
      exact ⟨b, mem, hn⟩
    · rintro ⟨b, mem, hn⟩
      exact ⟨(m, b), mem, rfl, hn⟩

lemma Body.name_of_mem_places {b : Body} {n : Place} (h : n ∈ b.places) :
    n.name ∈ b.calls ∨ n.name ∈ b.splices := by
  rcases List.mem_append.1 h with h | h
  · obtain ⟨name, hn, rfl⟩ := List.mem_map.1 h
    exact .inl hn
  · obtain ⟨name, hn, rfl⟩ := List.mem_map.1 h
    exact .inr hn

/-! ### Places of a definition -/

namespace Graph

variable {g : Graph}

/-- What stands at a place of a definition builds the instance, or goes on to one place of the same
definition that is further behind. -/
def Settles (g : Graph) (d : Definition) (m : Place) (b : Body) : Prop :=
  m.name ∈ memberNames d.id d ∧ (g.body d = .ok b ∨ ∃ n, b.places = [n] ∧
    n.name ∈ memberNames d.id d ∧ n.rank (factoryName d.id) < m.rank (factoryName d.id))

lemma settles_of_emitPlain {d : Definition} (single : memberNames d.id d = [factoryName d.id])
    {em : Emission} (h : g.emitPlain d = .ok em) {m : Place} {b : Body}
    (hm : (m, b) ∈ placesOf em.factories em.files) : g.Settles d m b := by
  simp only [emitPlain] at h
  split at h
  · obtain ⟨p, hp, h⟩ := bind_eq_ok.1 h
    cases h
    obtain ⟨b', hb', ⟨-, rfl⟩ | ⟨-, rfl⟩⟩ := cases_of_placed hp
    · obtain ⟨rfl, rfl⟩ : m = .method (factoryName d.id) ∧ b = b' := by
        simpa [placesOf] using hm
      exact ⟨by simp [Place.name, single], .inl hb'⟩
    · obtain ⟨rfl, rfl⟩ | ⟨rfl, rfl⟩ : m = .method (factoryName d.id) ∧
          b = .splice (factoryName d.id) ∨ m = .file (factoryName d.id) ∧ b = b' := by
        simpa [placesOf] using hm
      · refine ⟨by simp [Place.name, single], .inr ⟨.file (factoryName d.id), rfl, ?_, ?_⟩⟩
        · simp [Place.name, single]
        · simp [Place.rank]
      · exact ⟨by simp [Place.name, single], .inl hb'⟩
  · split at h
    · next c _ =>
      obtain ⟨b', hb', h⟩ := bind_eq_ok.1 h
      cases h
      obtain ⟨rfl, rfl⟩ : m = .file (factoryName (Definition.cls c).id) ∧ b = b' := by
        simpa [placesOf] using hm
      exact ⟨by simp [Place.name, single], .inl hb'⟩
    · cases h
      simp [placesOf] at hm

/-- What stands at a place of a proxy: the body itself, what hands over to its file, what hands over
to the file of the proxy, and the proxy. -/
lemma cases_of_mem_emitProxy {inner : Definition} {fileBased : Bool} {always : List String}
    {em : Emission} (h : g.emitProxy inner fileBased always = .ok em) {m : Place} {b : Body}
    (hm : (m, b) ∈ placesOf em.factories em.files) :
    ((m = .method (factoryName inner.id ++ innerSuffix) ∨ m = .file (factoryName inner.id)) ∧
      g.body inner = .ok b) ∨
    (m = .method (factoryName inner.id ++ innerSuffix) ∧ b = .splice (factoryName inner.id)) ∨
    (fileBased ∧ m = .method (factoryName inner.id) ∧
      b = .splice (factoryName inner.id ++ proxySuffix)) ∨
    (m = .method (factoryName inner.id) ∨
        fileBased ∧ m = .file (factoryName inner.id ++ proxySuffix)) ∧
      ∃ units, b = .proxy units (factoryName inner.id ++ innerSuffix) := by
  obtain ⟨p, hp, h⟩ := bind_eq_ok.1 h
  cases h
  obtain ⟨b', hb', ⟨-, rfl⟩ | ⟨-, rfl⟩⟩ := cases_of_placed hp <;> cases fileBased <;>
    simp [placesOf] at hm <;> grind

lemma settles_of_emitProxy {inner : Definition} {fileBased : Bool} {always : List String}
    {em : Emission} (h : g.emitProxy inner fileBased always = .ok em) {m : Place} {b : Body}
    (hm : (m, b) ∈ placesOf em.factories em.files) :
    g.Settles (.autoloaded inner fileBased always) m b := by
  have apart : factoryName inner.id ++ innerSuffix ≠ factoryName inner.id ∧
      factoryName inner.id ++ proxySuffix ≠ factoryName inner.id := by
    simp [innerSuffix, proxySuffix]
  have taken : ∀ name, name ∈ memberNames inner.id (.autoloaded inner fileBased always) ↔
      name = factoryName inner.id ∨ name = factoryName inner.id ++ innerSuffix ∨
        fileBased ∧ name = factoryName inner.id ++ proxySuffix := by
    intro name
    cases fileBased <;> simp [memberNames]
  rcases cases_of_mem_emitProxy h hm with
    ⟨rfl | rfl, own⟩ | ⟨rfl, rfl⟩ | ⟨filed, rfl, rfl⟩ | ⟨rfl | ⟨filed, rfl⟩, units, rfl⟩
  · exact ⟨(taken _).2 (.inr (.inl rfl)), .inl own⟩
  · exact ⟨(taken _).2 (.inl rfl), .inl own⟩
  · refine ⟨(taken _).2 (.inr (.inl rfl)), .inr ⟨_, rfl, (taken _).2 (.inl rfl), ?_⟩⟩
    simp [Place.rank, Definition.id, apart]
  · refine ⟨(taken _).2 (.inl rfl), .inr ⟨_, rfl, (taken _).2 (.inr (.inr ⟨filed, rfl⟩)), ?_⟩⟩
    simp [Place.rank, Definition.id, apart]
  · refine ⟨(taken _).2 (.inl rfl), .inr ⟨_, rfl, (taken _).2 (.inr (.inl rfl)), ?_⟩⟩
    simp [Place.rank, Definition.id, apart]
  · refine ⟨(taken _).2 (.inr (.inr ⟨filed, rfl⟩)), .inr ⟨_, rfl,
      (taken _).2 (.inr (.inl rfl)), ?_⟩⟩
    simp [Place.rank, Definition.id, apart]

lemma settles_of_emit {d : Definition} {em : Emission} (h : g.emit d = .ok em) {m : Place}
    {b : Body} (hm : (m, b) ∈ placesOf em.factories em.files) : g.Settles d m b := by
  cases d with
  | autoloaded => exact settles_of_emitProxy h hm
  | container =>
    cases h
    cases hm
  | cls | «alias» | perConsumer => exact settles_of_emitPlain rfl h hm

end Graph

/-! ### From place to place -/

lemma exists_settles_of_mem_placesOf {g : Graph} {config : Config} {c : Container}
    (built : g.container config = .ok c) {m : Place} {b : Body}
    (hm : (m, b) ∈ placesOf c.factories c.files) : ∃ k d, g.find? k = some d ∧ g.Settles d m b := by
  obtain ⟨-, -, ems, hems, factories, files⟩ := exists_emissions built
  have mem : ∃ em ∈ ems, (m, b) ∈ placesOf em.factories em.files := by
    rw [factories, files] at hm
    rcases List.mem_append.1 hm with hm | hm
    · obtain ⟨f, hf, eq⟩ := List.mem_map.1 hm
      obtain ⟨em, hem, hf⟩ := List.mem_flatMap.1 hf
      exact ⟨em, hem, List.mem_append_left _ (List.mem_map.2 ⟨f, hf, eq⟩)⟩
    · obtain ⟨p, hp, eq⟩ := List.mem_map.1 hm
      obtain ⟨em, hem, hp⟩ := List.mem_flatMap.1 hp
      exact ⟨em, hem, List.mem_append_right _ (List.mem_map.2 ⟨p, hp, eq⟩)⟩
  obtain ⟨em, hem, hm⟩ := mem
  obtain ⟨k, d, hk, emits⟩ := Graph.exists_emit_of_mem hems hem
  exact ⟨k, d, hk, Graph.settles_of_emit emits hm⟩

/-- A place has a name of the definition of an identifier. -/
def Graph.Owns (g : Graph) (k : Identifier) (m : Place) : Prop :=
  ∃ d, g.find? k = some d ∧ m.name ∈ memberNames k d

/-- From a place of an identifier to one of another: it needs that one, or both are its own and the
second one is further behind. -/
def Graph.Descends (g : Graph) (k : Identifier) (m : Place) (k' : Identifier) (n : Place) : Prop :=
  TransGen g.DependsOn k k' ∨ k' = k ∧ n.rank (factoryName k) < m.rank (factoryName k)

open Wiring

section Resolved

variable {w : Wiring} {always : List String} {roots : List Identifier} {g : Graph}
  (yields : w.Yields roots g)
include yields

/-- A class or a proxy on the way of something that a body asks for is at least one dependency
away. -/
lemma transGen_of_way {k k' : Identifier} {d d' : Definition}
    (hk : (w.wrapEntries always g).find? k = some d) {q : Option Identifier × Identifier}
    (hq : q ∈ d.lookups) (way : ReflTransGen ((w.wrapEntries always g).Passes q.1) q.2 k')
    (hk' : (w.wrapEntries always g).find? k' = some d')
    (kind : (∃ c, d' = .cls c) ∨ ∃ inner fileBased always,
      d' = .autoloaded inner fileBased always) :
    TransGen (w.wrapEntries always g).DependsOn k k' := by
  have needed : ∀ {a b}, ReflTransGen ((w.wrapEntries always g).Passes q.1) a b →
      ReflTransGen (w.wrapEntries always g).DependsOn a b := fun way =>
    way.lift id fun _ _ => dependsOn_of_passes yields
  have direct : q.2 ∈ d.namedDependencies →
      TransGen (w.wrapEntries always g).DependsOn k k' := fun named =>
    .head' ⟨d, hk, Definition.mem_dependencies.2 named⟩ (needed way)
  have found := hk
  rw [find?_wrapEntries] at found
  obtain ⟨d₀, hd₀, rfl⟩ := Option.map_eq_some_iff.1 found
  rw [lookups_front] at hq
  rw [namedDependencies_front] at direct
  cases d₀ with
  | cls c =>
    obtain ⟨j, hj, rfl⟩ := List.mem_map.1 hq
    exact direct hj
  | «alias» a =>
    by_cases ha : a.isContainer
    · simp [Definition.lookups, ha] at hq
    · apply direct
      simp_all [Definition.lookups, Definition.namedDependencies]
  | container => cases hq
  | perConsumer id scope entryPoint default branches =>
    -- it asks for itself, and goes on by its default branch
    obtain rfl := List.mem_singleton.1 hq
    obtain rfl : id = k := yields.original.id_eq hd₀
    rcases ReflTransGen.cases_head way with rfl | ⟨j, step, way⟩
    · cases hk.symm.trans hk'
      exfalso
      by_cases hw : id ∈ w.wrappedEntries <;>
        simp [front, hw, Graph.wrapped] at kind
    · exact .head' (dependsOn_of_passes yields step) (needed way)
  | autoloaded => exact absurd hd₀ yields.original.ne_autoloaded

variable {config : Config} {c : Container}
  (built : (w.wrapEntries always g).container config = .ok c)
include built

/-- Each step from place to place descends. -/
lemma descends_of_refers {m n : Place} (refers : c.Refers m n) {k : Identifier}
    (owns : (w.wrapEntries always g).Owns k m) : ∃ k', (w.wrapEntries always g).Owns k' n ∧
      (w.wrapEntries always g).Descends k m k' n := by
  obtain ⟨b, hb, hn⟩ := refers
  obtain ⟨d, hk, hm⟩ := owns
  obtain ⟨j, e, hj, mine, settles⟩ := exists_settles_of_mem_placesOf built hb
  have keyed := yields.keyed always
  rw [keyed j e hj] at mine settles
  obtain rfl := (exists_emissions built).1.eq_of_mem hj hk mine hm
  rcases settles with own | ⟨n', only, taken, further⟩
  · obtain ⟨q, hq, k', d', way, hk', -, taken, kind⟩ :=
      Graph.exists_way_of_body own (Body.name_of_mem_places hn)
    exact ⟨k', ⟨d', hk', taken⟩, .inl (transGen_of_way yields hj hq way hk' kind)⟩
  · rw [only] at hn
    obtain rfl := List.mem_singleton.1 hn
    exact ⟨j, ⟨e, hj, taken⟩, .inr ⟨rfl, further⟩⟩

/-- So does each run of steps. -/
lemma descends_of_transGen {m n : Place} (refers : TransGen c.Refers m n) {k : Identifier}
    (owns : (w.wrapEntries always g).Owns k m) : ∃ k', (w.wrapEntries always g).Owns k' n ∧
      (w.wrapEntries always g).Descends k m k' n := by
  induction refers with
  | single step => exact descends_of_refers yields built step owns
  | tail _ step ih =>
    obtain ⟨j, owns, descends⟩ := ih
    obtain ⟨k', owns, descends'⟩ := descends_of_refers yields built step owns
    refine ⟨k', owns, ?_⟩
    rcases descends with needs | ⟨rfl, further⟩ <;> rcases descends' with needs' | ⟨rfl, further'⟩
    · exact .inl (needs.trans needs')
    · exact .inl needs
    · exact .inl needs'
    · exact .inr ⟨rfl, Nat.lt_trans further' further⟩

/-- Without cycles of dependencies, no place is come back to. -/
lemma not_transGen_refers
    (acyclic : ∀ k, ¬TransGen (w.wrapEntries always g).DependsOn k k) (m : Place) :
    ¬TransGen c.Refers m m := by
  intro cycle
  obtain ⟨n, ⟨b, hb, -⟩, -⟩ := TransGen.head'_iff.1 cycle
  obtain ⟨k, d, hk, mine, -⟩ := exists_settles_of_mem_placesOf built hb
  rw [yields.keyed always k d hk] at mine
  obtain ⟨k', ⟨d', hk', taken⟩, descends⟩ := descends_of_transGen yields built cycle ⟨d, hk, mine⟩
  obtain rfl := (exists_emissions built).1.eq_of_mem hk hk' mine taken
  rcases descends with needs | ⟨-, further⟩
  · exact acyclic k needs
  · exact Nat.lt_irrefl _ further

end Resolved

/-- If the dependencies of a resolved graph have no cycle, neither have the bodies of its container:
no way along calls and splices comes to a method or a file twice. -/
theorem acyclic_of_compile {w : Wiring} {entry : Option Identifier} {g : Graph} {config : Config}
    {files : Artifacts} (h : w.resolveFor entry = .ok g) (compiles : g.compile config = .ok files)
    (acyclic : ∀ k, ¬TransGen g.DependsOn k k) :
    ∃ c, g.container config = .ok c ∧ files = c.artifacts config ∧ c.IsWritten config files ∧
      (∀ m, ¬TransGen c.Refers m m) ∧ ∀ way : List Place, way.IsChain c.Refers → way.Nodup := by
  obtain ⟨c, built, rfl⟩ := Graph.exists_container_of_compile compiles
  obtain ⟨g₀, always, yields, rfl⟩ := exists_of_resolveFor h
  have never := not_transGen_refers yields built acyclic
  have written := isWritten_of_container built (yields.keyed always)
    (yields.nodup_entryPoints always)
  refine ⟨c, built, rfl, written, never, fun way chain => ?_⟩
  have forwards : way.Pairwise (TransGen c.Refers) :=
    (chain.imp fun _ _ => TransGen.single).pairwise
  apply forwards.imp
  rintro m n ahead rfl
  exact never m ahead

/-- Dependencies that go down have no cycle. -/
lemma Graph.not_transGen_dependsOn {g : Graph} (level : Identifier → Nat)
    (down : ∀ k d, g.find? k = some d → ∀ j ∈ d.dependencies, level j < level k) (k : Identifier) :
    ¬TransGen g.DependsOn k k := by
  intro cycle
  have lower : ∀ {j k}, TransGen g.DependsOn k j → level j < level k := by
    intro j k needs
    induction needs with
    | single step =>
      obtain ⟨d, hk, hj⟩ := step
      exact down _ d hk _ hj
    | tail _ step ih =>
      obtain ⟨d, hk, hj⟩ := step
      exact Nat.lt_trans (down _ d hk _ hj) ih
  exact Nat.lt_irrefl _ (lower cycle)

/-- How far down dependencies go from the identifiers of the service. -/
def placedLevel : Identifier → Nat
  | "Service" => 3
  | "Store" => 2
  | "Disk" => 1
  | _ => 0

/-- The service goes on to the file of its proxy, to the method behind it, to the file of that and
to that of the disk. -/
theorem acyclic_placedWiring :
    ∃ g files c, placedWiring.resolveFor none = .ok g ∧
      g.compile placedWiring.config = .ok files ∧ g.container placedWiring.config = .ok c ∧
      (∀ k, ¬TransGen g.DependsOn k k) ∧
      [.method "Service", .file "Service__proxy", .method "Service__autoloaded", .file "Service",
        .file "Disk"].IsChain c.Refers ∧
      c.IsWritten placedWiring.config files ∧ ∀ m, ¬TransGen c.Refers m m := by
  have resolves : placedWiring.passesWithin 40 ["Service"] (fun g =>
      (∀ e ∈ g.definitions.entries, ∀ j ∈ e.2.dependencies, placedLevel j < placedLevel e.1) ∧
      g.containerPasses placedWiring.config fun c =>
        [.method "Service", .file "Service__proxy", .method "Service__autoloaded",
          .file "Service", .file "Disk"].IsChain c.Refers) = true := by
    decide +kernel
  obtain ⟨g, hg, passes⟩ := exists_of_passesWithin resolves
  obtain ⟨down, passes⟩ := of_decide_eq_true passes
  obtain ⟨c, hc, chain⟩ := Graph.exists_of_containerPasses passes
  have h : placedWiring.resolveFor none = .ok g := hg
  have compiles := Graph.compile_of_container hc
  have acyclic := Graph.not_transGen_dependsOn placedLevel fun k d hk =>
    down (k, d) ((g.definitions.mem_entries_iff_find? k d).2 hk)
  obtain ⟨c', hc', -, written, never, -⟩ := acyclic_of_compile h compiles acyclic
  cases hc.symm.trans hc'
  exact ⟨g, _, c, h, compiles, hc, acyclic, of_decide_eq_true chain, written, never⟩

end Injector
