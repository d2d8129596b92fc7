import Injector.Proofs.Container.Exposure
import Injector.Proofs.Identifier.FactoryName
import Mathlib.Data.List.Pairwise

/-!
# Names in a container

Each definition takes its own names for methods, kept instances and files. They are checked before a
container is built; so in a container no two methods, no two kept instances and no two files have
the same name, and none takes the name of a member that every container has.
-/

namespace Injector

/-! ### The characters of names -/

/-- Names that definitions take are made of name characters. -/
lemma isNameChar_of_mem_memberNames {k : Identifier} {d : Definition} {name : String}
    (taken : name ∈ memberNames k d) {ch : Char} (h : ch ∈ name.toList) : isNameChar ch := by
  have plain : ∀ suffix : String, suffix.toList.all isNameChar →
      name = factoryName k ++ suffix → isNameChar ch := by
    rintro suffix named rfl
    rw [String.toList_append, List.mem_append] at h
    rcases h with h | h
    · exact isNameChar_of_mem_factoryName h
    · exact List.all_eq_true.1 named ch h
  cases d with
  | container => cases taken
  | autoloaded inner fileBased always =>
    have cases : name = factoryName k ++ "" ∨ name = factoryName k ++ innerSuffix ∨
        name = factoryName k ++ proxySuffix := by
      cases fileBased <;> simp [memberNames] at taken ⊢ <;> tauto
    rcases cases with eq | eq | eq
    · exact plain "" rfl eq
    · exact plain innerSuffix rfl eq
    · exact plain proxySuffix rfl eq
  | cls | «alias» | perConsumer =>
    obtain rfl := List.mem_singleton.1 taken
    exact isNameChar_of_mem_factoryName h

/-! ### What the check of names ensures -/

lemma of_checkNames {owners names : List (String × Identifier)}
    (h : checkNames owners names = .ok ()) :
    (∀ n ∈ names, n.1 ∉ reservedMembers ∧ owners.lookup n.1 = none) ∧
      (names.map (·.1)).Nodup := by
  induction names generalizing owners with
  | nil => simp
  | cons n names ih =>
    obtain ⟨name, id⟩ := n
    rw [checkNames] at h
    split at h
    · cases h
    next free =>
    split at h
    · cases h
    next unowned =>
    obtain ⟨others, nodup⟩ := ih h
    have apart : ∀ n ∈ names, n.1 ≠ name ∧ owners.lookup n.1 = none := by
      intro n hn
      have := (others n hn).2
      by_cases hname : n.1 = name
      · simp [hname] at this
      · exact ⟨hname, by simpa [lookup_cons, hname] using this⟩
    constructor
    · intro n hn
      rcases List.mem_cons.1 hn with rfl | hn
      · exact ⟨free, unowned⟩
      · exact ⟨(others n hn).1, (apart n hn).2⟩
    · rw [List.map_cons]
      refine List.nodup_cons.2 ⟨fun hm => ?_, nodup⟩
      obtain ⟨n, hn, eq⟩ := List.mem_map.1 hm
      exact (apart n hn).1 eq

namespace Graph

variable {g : Graph}

/-- No two definitions share a name, and none takes the name of a common member. -/
structure HasOwnNames (g : Graph) : Prop where
  nodup : (g.allMemberNames.map (·.1)).Nodup
  free : ∀ n ∈ g.allMemberNames, n.1 ∉ reservedMembers

lemma mem_allMemberNames {k : Identifier} {d : Definition} (hk : g.find? k = some d) {name : String}
    (hn : name ∈ memberNames k d) : (name, k) ∈ g.allMemberNames :=
  List.mem_flatMap.2 ⟨(k, d), (g.definitions.mem_entries_iff_find? k d).2 hk,
    List.mem_map.2 ⟨name, hn, rfl⟩⟩

namespace HasOwnNames

variable (own : g.HasOwnNames)
include own

lemma entries : (g.definitions.entries.flatMap fun e => memberNames e.1 e.2).Nodup := by
  have nodup := own.nodup
  rw [allMemberNames, List.map_flatMap] at nodup
  simpa [Function.comp_def] using nodup

lemma nodup_memberNames {k : Identifier} {d : Definition} (hk : g.find? k = some d) :
    (memberNames k d).Nodup :=
  (List.nodup_flatMap.1 own.entries).1 (k, d) ((g.definitions.mem_entries_iff_find? k d).2 hk)

lemma eq_of_mem {j k : Identifier} {d e : Definition} (hj : g.find? j = some d)
    (hk : g.find? k = some e) {name : String} (hd : name ∈ memberNames j d)
    (he : name ∈ memberNames k e) : j = k := by
  by_contra hne
  have apart := (List.nodup_flatMap.1 own.entries).2
  have : Std.Symm (Function.onFun List.Disjoint fun e : Identifier × Definition =>
    memberNames e.1 e.2) := ⟨fun _ _ h _ hx hy => h hy hx⟩
  exact apart.forall ((g.definitions.mem_entries_iff_find? j d).2 hj)
    ((g.definitions.mem_entries_iff_find? k e).2 hk) (fun h => hne (congrArg Prod.fst h)) hd he

end HasOwnNames

/-! ### The order in which definitions are written -/

lemma nodup_emissionIds (nodup : g.entryPoints.Nodup) : g.emissionIds.Nodup := by
  refine List.nodup_append'.2 ⟨nodup.filter _, g.definitions.nodup_keys.filter _, ?_⟩
  intro k hk hk'
  exact of_decide_eq_true (List.mem_filter.1 hk').2 (List.mem_filter.1 hk).1

/-- Each definition is written once. -/
lemma pairwise_emissionOrder (keyed : ∀ k d, g.find? k = some d → d.id = k)
    (nodup : g.entryPoints.Nodup) : g.emissionOrder.Pairwise fun d e => d.id ≠ e.id := by
  have ids := map_filter_emissionOrder keyed (fun _ => true) id
  rw [List.filter_eq_self.2 (by simp), List.map_id] at ids
  have all : (g.emissionOrder.map fun d => id d.id).Nodup :=
    ids ▸ (nodup_emissionIds nodup).filter _
  exact List.pairwise_map.1 all

end Graph

/-! ### The names of methods and files -/

/-- The names of the methods of a definition. -/
def Definition.methodNames : Definition → List String
  | .autoloaded inner .. => [factoryName inner.id ++ innerSuffix, factoryName inner.id]
  | d => if Graph.hasMethod d then [factoryName d.id] else []

/-- The names of the files of a definition. -/
def Definition.fileNames : Definition → List String
  | .autoloaded inner fileBased _ =>
    (if inner.isFileBased then [factoryName inner.id] else [])
      ++ if fileBased then [factoryName inner.id ++ proxySuffix] else []
  | d => if d.isFileBased && d.isWritten then [factoryName d.id] else []

namespace Graph

variable {g : Graph}

lemma names_of_placed {d : Definition} {name : String} {p : Body × List PlacedBody}
    (h : g.placed d name = .ok p) :
    p.2.map (·.name) = if d.isFileBased then [name] else [] := by
  obtain ⟨b, -, h⟩ := bind_eq_ok.1 h
  split at h <;> cases h <;> simp [*]

lemma names_of_emitPlain {d : Definition} {em : Emission} (h : g.emitPlain d = .ok em) :
    em.factories.map (·.name) = (if hasMethod d then [factoryName d.id] else []) ∧
      em.files.map (·.name) = if d.isFileBased && d.isWritten then [factoryName d.id] else [] := by
  simp only [emitPlain] at h
  split at h
  · next hm =>
    obtain ⟨p, hp, h⟩ := bind_eq_ok.1 h
    cases h
    simp [hm, names_of_placed hp, isWritten_of_hasMethod hm]
  · next hm =>
    split at h
    · next c =>
      obtain ⟨b, -, h⟩ := bind_eq_ok.1 h
      cases h
      have placed : c.fileBased := by
        simp only [hasMethod] at hm
        simp_all
      simp [hm, Definition.isFileBased, Definition.isWritten, placed]
    · next notClass =>
      cases h
      have unwritten : d.isWritten = false := by
        cases d with
        | cls c => exact absurd rfl (notClass c)
        | autoloaded => simp [hasMethod] at hm
        | «alias» | perConsumer => simpa [hasMethod, Definition.isWritten] using hm
        | container => rfl
      simp [hm, unwritten]

lemma names_of_emit {d : Definition} {em : Emission} (h : g.emit d = .ok em) :
    em.factories.map (·.name) = d.methodNames ∧ em.files.map (·.name) = d.fileNames := by
  cases d with
  | autoloaded inner fileBased always =>
    obtain ⟨p, hp, h⟩ := bind_eq_ok.1 h
    cases h
    cases fileBased <;> simp [Definition.methodNames, Definition.fileNames, names_of_placed hp]
  | cls c => exact names_of_emitPlain (d := .cls c) h
  | «alias» a => exact names_of_emitPlain (d := .alias a) h
  | container id => exact names_of_emitPlain (g := g) (d := .container id) h
  | perConsumer i s e t bs => exact names_of_emitPlain (d := .perConsumer i s e t bs) h

/-- The names of methods and files are among those that are checked. -/
lemma mem_memberNames_of_mem {d : Definition} {name : String}
    (h : name ∈ d.methodNames ∨ name ∈ d.fileNames) : name ∈ memberNames d.id d := by
  cases d with
  | autoloaded inner fileBased always =>
    cases fileBased <;> simp_all [Definition.methodNames, Definition.fileNames, memberNames,
      Definition.id] <;> tauto
  | container => simp [Definition.methodNames, Definition.fileNames, hasMethod,
      Definition.isFileBased] at h
  | cls | «alias» | perConsumer =>
    simp only [Definition.methodNames, Definition.fileNames] at h
    simp only [memberNames, List.mem_singleton]
    rcases h with h | h <;> split at h <;> simp_all

section Keyed

variable (keyed : ∀ k d, g.find? k = some d → d.id = k)
include keyed

lemma mem_memberNames_of_named {k : Identifier} {d : Definition} (hk : g.find? k = some d)
    {name : String} (named : name ∈ d.methodNames ∨ name ∈ d.fileNames) :
    name ∈ memberNames k d := by
  rw [← keyed k d hk]
  exact mem_memberNames_of_mem named

/-- A method or a file belongs to the one identifier that has its name. -/
lemma HasOwnNames.eq_of_named (own : g.HasOwnNames) {j k : Identifier} {d e : Definition}
    (hj : g.find? j = some d) (hk : g.find? k = some e) {name : String}
    (named : name ∈ d.methodNames ∨ name ∈ d.fileNames) (taken : name ∈ memberNames k e) :
    j = k :=
  own.eq_of_mem hj hk (mem_memberNames_of_named keyed hj named) taken

end Keyed

lemma nodup_methodNames {d : Definition} (h : (memberNames d.id d).Nodup) :
    d.methodNames.Nodup := by
  cases d with
  | autoloaded inner fileBased always =>
    cases fileBased <;> simp_all [Definition.methodNames, memberNames, Definition.id, eq_comm]
  | cls | «alias» | container | perConsumer =>
    simp only [Definition.methodNames]
    split <;> simp

lemma nodup_fileNames {d : Definition} (h : (memberNames d.id d).Nodup) : d.fileNames.Nodup := by
  cases d with
  | autoloaded inner fileBased always =>
    cases hi : inner.isFileBased <;> cases fileBased <;>
      simp_all [Definition.fileNames, memberNames, Definition.id]
  | cls | «alias» | container | perConsumer =>
    simp only [Definition.fileNames]
    split <;> simp

/-- Names that definitions take for one purpose are taken once each. -/
lemma HasOwnNames.nodup_flatMap (own : g.HasOwnNames)
    (keyed : ∀ k d, g.find? k = some d → d.id = k) (nodup : g.entryPoints.Nodup)
    {names : Definition → List String}
    (sub : ∀ k d, g.find? k = some d → ∀ n ∈ names d, n ∈ memberNames k d)
    (each : ∀ k d, g.find? k = some d → (memberNames k d).Nodup → (names d).Nodup) :
    (g.emissionOrder.flatMap names).Nodup := by
  have found : ∀ d ∈ g.emissionOrder, g.find? d.id = some d := by
    intro d hd
    obtain ⟨k, hk⟩ := exists_find?_of_mem_emissionOrder hd
    rw [keyed k d hk, hk]
  refine List.nodup_flatMap.2 ⟨fun d hd => ?_, ?_⟩
  · exact each _ d (found d hd) (own.nodup_memberNames (found d hd))
  · refine (pairwise_emissionOrder keyed nodup).imp_of_mem fun hd he hne name hn hn' => ?_
    exact hne (own.eq_of_mem (found _ hd) (found _ he) (sub _ _ (found _ hd) name hn)
      (sub _ _ (found _ he) name hn'))

/-- What is emitted comes from a definition of an identifier. -/
lemma exists_emit_of_mem {ems : List Emission} (h : g.emissionOrder.mapM g.emit = .ok ems)
    {em : Emission} (mem : em ∈ ems) : ∃ k d, g.find? k = some d ∧ g.emit d = .ok em := by
  obtain ⟨d, hd, emits⟩ := (exists_mem_of_mapM_eq_ok h).2 em mem
  obtain ⟨k, hk⟩ := exists_find?_of_mem_emissionOrder hd
  exact ⟨k, d, hk, emits⟩

end Graph

/-! ### Containers -/

/-- What a container is made of. -/
lemma exists_emissions {g : Graph} {config : Config} {c : Container}
    (h : g.container config = .ok c) :
    g.HasOwnNames ∧ c.caches = g.caches ∧ ∃ ems, g.emissionOrder.mapM g.emit = .ok ems ∧
      c.factories = ems.flatMap (·.factories) ∧ c.files = ems.flatMap (·.files) := by
  obtain ⟨⟨⟩, checked, h⟩ := bind_eq_ok.1 h
  obtain ⟨ems, hems, h⟩ := bind_eq_ok.1 h
  cases h
  obtain ⟨free, nodup⟩ := of_checkNames checked
  exact ⟨⟨nodup, fun n hn => (free n hn).1⟩, rfl, ems, hems, rfl, rfl⟩

section Container

variable {g : Graph} {config : Config} {c : Container} (h : g.container config = .ok c)
include h

lemma map_name_factories :
    c.factories.map (·.name) = g.emissionOrder.flatMap Definition.methodNames := by
  obtain ⟨-, -, ems, hems, factories, -⟩ := exists_emissions h
  rw [factories, List.map_flatMap]
  exact flatMap_of_mapM_eq_ok (fun d em hem => (Graph.names_of_emit hem).1) hems

lemma map_name_files : c.files.map (·.name) = g.emissionOrder.flatMap Definition.fileNames := by
  obtain ⟨-, -, ems, hems, -, files⟩ := exists_emissions h
  rw [files, List.map_flatMap]
  exact flatMap_of_mapM_eq_ok (fun d em hem => (Graph.names_of_emit hem).2) hems

/-- Each method is one of a definition. -/
lemma exists_of_mem_methods {name : String} (method : name ∈ c.factories.map (·.name)) :
    ∃ k d, g.find? k = some d ∧ name ∈ d.methodNames := by
  rw [map_name_factories h] at method
  obtain ⟨d, hd, named⟩ := List.mem_flatMap.1 method
  obtain ⟨k, hk⟩ := Graph.exists_find?_of_mem_emissionOrder hd
  exact ⟨k, d, hk, named⟩

variable (keyed : ∀ k d, g.find? k = some d → d.id = k) (nodup : g.entryPoints.Nodup)
include keyed nodup

lemma nodup_factories : (c.factories.map (·.name)).Nodup := by
  rw [map_name_factories h]
  refine (exists_emissions h).1.nodup_flatMap keyed nodup (fun k d hk n hn => ?_)
    (fun k d hk h => ?_)
  · exact Graph.mem_memberNames_of_named keyed hk (.inl hn)
  · exact Graph.nodup_methodNames (keyed k d hk ▸ h)

lemma nodup_files : (c.files.map (·.name)).Nodup := by
  rw [map_name_files h]
  refine (exists_emissions h).1.nodup_flatMap keyed nodup (fun k d hk n hn => ?_)
    (fun k d hk h => ?_)
  · exact Graph.mem_memberNames_of_named keyed hk (.inr hn)
  · exact Graph.nodup_fileNames (keyed k d hk ▸ h)

/-- The kept instances have names of their own, which are none of the common members. -/
lemma nodup_caches :
    (c.caches.map (·.name)).Nodup ∧ ∀ f ∈ c.caches, f.name ∉ reservedMembers := by
  obtain ⟨own, caches, -⟩ := exists_emissions h
  have checked : ∀ k d, g.find? k = some d → g.isCached d.id →
      factoryName d.id ∈ memberNames k d := by
    intro k d hk kept
    obtain rfl := keyed k d hk
    rw [Graph.isCached, hk] at kept
    obtain ⟨c, hc⟩ := Definition.exists_core_of_keepsInstance kept
    cases d with
    | container => cases hc
    | cls | «alias» | perConsumer | autoloaded => exact List.mem_cons_self
  have names : c.caches.map (·.name) = g.emissionOrder.flatMap fun d =>
      if g.isCached d.id then [factoryName d.id] else [] := by
    rw [caches, Graph.caches, List.map_map]
    induction g.emissionOrder with
    | nil => rfl
    | cons d ds ih => cases hd : g.isCached d.id <;> simp_all
  constructor
  · rw [names]
    refine own.nodup_flatMap keyed nodup (fun k d hk n hn => ?_) (fun k d hk h => ?_)
    · split at hn
      · next kept => exact List.mem_singleton.1 hn ▸ checked k d hk kept
      · cases hn
    · split <;> simp
  · rw [caches]
    intro f hf
    obtain ⟨d, hd, rfl⟩ := List.mem_map.1 hf
    obtain ⟨hd, kept⟩ := List.mem_filter.1 hd
    obtain ⟨k, hk⟩ := Graph.exists_find?_of_mem_emissionOrder hd
    exact own.free _ (Graph.mem_allMemberNames hk (checked k d hk kept))

end Container

/-! ### The table of files -/

lemma placedPath_injective (directory : String) : Function.Injective (placedPath directory) := by
  intro a b h
  simp only [placedPath, artifactFile] at h
  simpa using h

/-- Files with different names go to different paths. -/
lemma nodup_paths (config : Config) {ps : List PlacedBody} (nodup : (ps.map (·.name)).Nodup) :
    ((ps.map fun p => (placedPath config.directory p.name, p.text config.directory)).map
      (·.1)).Nodup := by
  have paths := nodup.map (placedPath_injective config.directory)
  rwa [List.map_map] at paths ⊢

/-- The table of files has the paths of the files. -/
lemma Container.mem_keys_artifacts {config : Config} {c : Container} {path : String} :
    path ∈ (c.artifacts config).placed.keys ↔
      ∃ p ∈ c.files, path = placedPath config.directory p.name := by
  rw [Table.mem_keys_iff, Container.artifacts, contains_ofList]
  constructor
  · rintro ⟨text, h⟩
    obtain ⟨p, hp, eq⟩ := List.mem_map.1 h
    cases eq
    exact ⟨p, hp, rfl⟩
  · rintro ⟨p, hp, rfl⟩
    exact ⟨_, List.mem_map_of_mem hp⟩

end Injector
