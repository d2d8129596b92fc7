import Injector.Proofs.Container.Names
import Injector.Proofs.Identifier.FactoryName

/-!
# Graphs of conventional identifiers

Each name that a definition takes is the factory name of an identifier: its own, or one in the
module of its own for what a proxy adds. If those are conventional, no two of them share a name, so
that the check of names finds nothing, and compilation cannot fail by a name.
-/

namespace Injector

/-! ### Names that are free -/

/-- Names that are free, each taken once, pass the check. -/
lemma checkNames_of_nodup {owners names : List (String × Identifier)}
    (free : ∀ n ∈ names, n.1 ∉ reservedMembers ∧ owners.lookup n.1 = none)
    (nodup : (names.map (·.1)).Nodup) : checkNames owners names = .ok () := by
  induction names generalizing owners with
  | nil => rfl
  | cons n names ih =>
    obtain ⟨name, id⟩ := n
    obtain ⟨fresh, nodup⟩ := List.nodup_cons.1 nodup
    obtain ⟨free₀, unowned⟩ := free _ List.mem_cons_self
    rw [checkNames, if_neg free₀, unowned]
    apply ih _ nodup
    intro n hn
    obtain ⟨free', unowned'⟩ := free n (List.mem_cons_of_mem _ hn)
    have ne : n.1 ≠ name := by
      intro eq
      exact fresh (List.mem_map.2 ⟨n, hn, eq⟩)
    exact ⟨free', by simp [lookup_cons, ne, unowned']⟩

/-- That an identifier cannot have the name that it would get. -/
def Error.isNameFault : Error → Bool
  | .config (.reservedMember ..) => true
  | .config (.sharedName ..) => true
  | _ => false

namespace Graph

variable {g : Graph}

/-- What is asked for never fails by a name. -/
lemma Fails.isNameFault {consumer : Option Identifier} {k : Identifier} {e : Error}
    (h : g.Fails consumer k e) : e.isNameFault = false := by
  cases h with
  | undefined absent => rfl
  | @unbound d e present hop =>
    cases d with
    | perConsumer id scope entryPoint default branches =>
      simp only [Definition.hop] at hop
      split at hop
      · cases hop
      · cases hop
        rfl
    | cls | «alias» | container | autoloaded => cases hop
  | repeated => rfl

/-- If its names pass the check, no graph fails to compile by a name. -/
lemma isNameFault_of_compile (checked : checkNames [] g.allMemberNames = .ok ()) {config : Config}
    {e : Error} (h : g.compile config = .error e) : e.isNameFault = false := by
  rcases bind_eq_error.1 (map_eq_error.1 h) with h | ⟨_, -, h⟩
  · rw [checked] at h
    cases h
  rcases bind_eq_error.1 h with h | ⟨_, -, h⟩
  · obtain ⟨d, -, h⟩ := exists_of_mapM_eq_error h
    obtain ⟨q, -, h⟩ := exists_of_body (body_of_emit h).2
    obtain ⟨k, -, fails⟩ := exists_of_target? h
    exact fails.isNameFault
  · cases h

end Graph

/-! ### Identifiers behind names -/

def innerWord : String := "autoloaded"

def proxyWord : String := "proxy"

/-- The identifiers whose factory names the definition of an identifier takes. -/
def memberIds (id : Identifier) : Definition → List Identifier
  | .container _ => []
  | .autoloaded _ fileBased _ =>
    [id, inModule id innerWord] ++ if fileBased then [inModule id proxyWord] else []
  | _ => [id]

/-- A conventional identifier that is no common member of containers, and not in a module as what a
proxy adds. -/
structure IsOrdinary (id : Identifier) : Prop where
  conventional : IsConventional id
  free : id ∉ reservedMembers
  apart : ∀ word ∈ [innerWord, proxyWord], (segments id).getLast? ≠ some word.toList

instance (id : Identifier) : Decidable (IsOrdinary id) :=
  decidable_of_iff (IsConventional id ∧ id ∉ reservedMembers ∧
      ∀ word ∈ [innerWord, proxyWord], (segments id).getLast? ≠ some word.toList)
    ⟨fun ⟨conventional, free, apart⟩ => ⟨conventional, free, apart⟩,
      fun h => ⟨h.conventional, h.free, h.apart⟩⟩

/-- The identifiers of all that is not a container are ordinary. -/
def Graph.IsOrdinary (g : Graph) : Prop :=
  ∀ k d, g.find? k = some d → (∀ i, d ≠ .container i) → Injector.IsOrdinary k

lemma isWord_of_mem {word : String} (h : word ∈ [innerWord, proxyWord]) : IsWord word.toList := by
  rcases List.mem_pair.1 h with rfl | rfl <;> decide +kernel

lemma isConventional_reservedMembers :
    ∀ r ∈ reservedMembers, IsConventional r ∧ factoryName r = r := by
  decide +kernel

lemma inModule_not_mem_reservedMembers (id : Identifier) (word : String) :
    inModule id word ∉ reservedMembers := by
  have colonless : ∀ r ∈ reservedMembers, ':' ∉ r.toList := by
    decide +kernel
  intro h
  exact colonless _ h (by simp [toList_inModule])

/-- A name of a common member is that of no other conventional identifier. -/
lemma IsConventional.factoryName_not_mem {id : Identifier} (h : IsConventional id)
    (free : id ∉ reservedMembers) : factoryName id ∉ reservedMembers := by
  intro reserved
  obtain ⟨conventional, name⟩ := isConventional_reservedMembers _ reserved
  have same : factoryName id = id := injOn_factoryName conventional h name
  exact free (same ▸ reserved)

/-- A definition that takes a name is no container, and the name is its own or that of what a proxy
adds. -/
lemma cases_of_mem_memberIds {k id : Identifier} {d : Definition} (h : id ∈ memberIds k d) :
    (∀ i, d ≠ .container i) ∧ (id = k ∨ ∃ word ∈ [innerWord, proxyWord], id = inModule k word) := by
  cases d with
  | container => cases h
  | cls | «alias» | perConsumer =>
    refine ⟨by simp, .inl ?_⟩
    exact List.mem_singleton.1 h
  | autoloaded inner fileBased always =>
    refine ⟨by simp, ?_⟩
    simp only [memberIds, List.cons_append, List.nil_append, List.mem_cons] at h
    rcases h with rfl | rfl | h
    · exact .inl rfl
    · exact .inr ⟨innerWord, by simp, rfl⟩
    · split at h
      · exact .inr ⟨proxyWord, by simp, List.mem_singleton.1 h⟩
      · cases h

lemma nodup_memberIds (id : Identifier) (d : Definition) : (memberIds id d).Nodup := by
  have ne : ∀ word, id ≠ inModule id word := by
    intro word eq
    have longer := congrArg (·.toList.length) eq
    simp [toList_inModule] at longer
  have apart : inModule id innerWord ≠ inModule id proxyWord := by
    intro eq
    have words : innerWord.toList = proxyWord.toList := by
      simpa [toList_inModule] using congrArg String.toList eq
    exact absurd words (by decide)
  cases d with
  | autoloaded inner fileBased always =>
    cases fileBased <;> simp [memberIds, ne, apart]
  | cls | «alias» | container | perConsumer => simp [memberIds]

namespace Graph.IsOrdinary

variable {g : Graph} (h : g.IsOrdinary) {k id : Identifier} {d : Definition}
  (hk : g.find? k = some d)
include h hk

lemma isConventional_of_mem (hid : id ∈ memberIds k d) : Injector.IsConventional id := by
  obtain ⟨named, rfl | ⟨word, hw, rfl⟩⟩ := cases_of_mem_memberIds hid
  · exact (h _ d hk named).conventional
  · exact (h k d hk named).conventional.inModule (isWord_of_mem hw)

lemma factoryName_not_mem (hid : id ∈ memberIds k d) : factoryName id ∉ reservedMembers := by
  apply (h.isConventional_of_mem hk hid).factoryName_not_mem
  obtain ⟨named, rfl | ⟨word, hw, rfl⟩⟩ := cases_of_mem_memberIds hid
  · exact (h _ d hk named).free
  · exact inModule_not_mem_reservedMembers k word

lemma memberNames_eq : memberNames k d = (memberIds k d).map factoryName := by
  cases d with
  | autoloaded inner fileBased always =>
    have conventional := (h k _ hk (by simp)).conventional
    have within : ∀ word ∈ [innerWord, proxyWord],
        factoryName (inModule k word) = factoryName k ++ "__" ++ word := by
      intro word hw
      exact conventional.factoryName_inModule (isWord_of_mem hw)
    have suffixes : innerSuffix = "__" ++ innerWord ∧ proxySuffix = "__" ++ proxyWord := by
      decide +kernel
    simp only [memberNames, memberIds, suffixes, List.map_append, List.map_cons, List.map_nil,
      within innerWord (by simp), String.append_assoc]
    split
    · simp [within proxyWord (by simp), String.append_assoc]
    · rfl
  | cls | «alias» | container | perConsumer => rfl

/-- An identifier behind the name of a definition tells that of the definition. -/
lemma eq_of_mem_memberIds (hid : id ∈ memberIds k d) {k' : Identifier} {d' : Definition}
    (hk' : g.find? k' = some d') (hid' : id ∈ memberIds k' d') : k = k' := by
  obtain ⟨named, own⟩ := cases_of_mem_memberIds hid
  obtain ⟨named', own'⟩ := cases_of_mem_memberIds hid'
  have last : ∀ {j word}, Injector.IsConventional j → word ∈ [innerWord, proxyWord] →
      (segments (inModule j word)).getLast? = some word.toList := by
    intro j word hj hw
    rw [hj.segments_inModule (isWord_of_mem hw), List.getLast?_concat]
  have hc := (h k d hk named).conventional
  have hc' := (h k' d' hk' named').conventional
  rcases own with rfl | ⟨word, hw, rfl⟩ <;> rcases own' with own' | ⟨word', hw', own'⟩
  · exact own'
  · exact absurd (own' ▸ last hc' hw') ((h id d hk named).apart word' hw')
  · exact absurd (own' ▸ last hc hw) ((h k' d' hk' named').apart word hw)
  · have eq := congrArg segments own'
    rw [hc.segments_inModule (isWord_of_mem hw), hc'.segments_inModule (isWord_of_mem hw')] at eq
    exact segments_injective (List.append_inj_left' eq rfl)

omit hk in
/-- No two names of the definitions are the same. -/
lemma nodup_allMemberNames : (g.allMemberNames.map (·.1)).Nodup := by
  have found : ∀ e ∈ g.definitions.entries, g.find? e.1 = some e.2 := fun e he =>
    (g.definitions.mem_entries_iff_find? e.1 e.2).1 he
  have names : g.allMemberNames.map (·.1) =
      (g.definitions.entries.flatMap fun e => memberIds e.1 e.2).map factoryName := by
    rw [allMemberNames, List.map_flatMap, List.map_flatMap]
    apply List.flatMap_congr
    intro e he
    simp [h.memberNames_eq (found e he), Function.comp_def]
  rw [names]
  apply List.Nodup.map_on
  · intro id hid id' hid' eq
    obtain ⟨e, he, hid⟩ := List.mem_flatMap.1 hid
    obtain ⟨e', he', hid'⟩ := List.mem_flatMap.1 hid'
    exact injOn_factoryName (h.isConventional_of_mem (found e he) hid)
      (h.isConventional_of_mem (found e' he') hid') eq
  refine List.nodup_flatMap.2 ⟨fun e he => ?_, ?_⟩
  · exact nodup_memberIds e.1 e.2
  · have keys : g.definitions.entries.Pairwise fun e e' => e.1 ≠ e'.1 :=
      List.pairwise_map.1 g.definitions.nodup_keys
    refine keys.imp_of_mem fun he he' ne id hid hid' => ?_
    exact ne (h.eq_of_mem_memberIds (found _ he) hid (found _ he') hid')

omit hk in
lemma checkNames_eq : checkNames [] g.allMemberNames = .ok () := by
  apply checkNames_of_nodup _ h.nodup_allMemberNames
  rintro ⟨name, k⟩ hn
  obtain ⟨e, he, hn⟩ := List.mem_flatMap.1 hn
  have found := (g.definitions.mem_entries_iff_find? e.1 e.2).1 he
  obtain ⟨name', hn', eq⟩ := List.mem_map.1 hn
  cases eq
  rw [h.memberNames_eq found] at hn'
  obtain ⟨id, hid, rfl⟩ := List.mem_map.1 hn'
  exact ⟨h.factoryName_not_mem found hid, rfl⟩

end Graph.IsOrdinary

/-- No two conventional identifiers share a factory name, which can stand for a method. So a graph
of ordinary ones never fails to compile by a name. -/
theorem names_of_conventional :
    Set.InjOn factoryName {id | IsConventional id} ∧
    (∀ id, IsMethodName (factoryName id) ↔ id ≠ "") ∧
    (∀ id, IsConventional id → id ≠ "") ∧
    ∀ g : Graph, g.IsOrdinary → checkNames [] g.allMemberNames = .ok () ∧
      ∀ config e, g.compile config = .error e → e.isNameFault = false := by
  refine ⟨injOn_factoryName, fun id => ⟨?_, isMethodName_factoryName⟩,
    fun id conventional => conventional.ne_empty, fun g ordinary => ?_⟩
  · rintro name rfl
    exact name.nonempty rfl
  · have checked := ordinary.checkNames_eq
    exact ⟨checked, fun config e => Graph.isNameFault_of_compile checked⟩

/-- In a module, a job behind a proxy that stands in a file, and the container. -/
def moduleGraph : Graph :=
  ((({} : Graph).declare "app::Job").insertIfAbsent
      (.cls { id := "app::Job", entryPoint := true, fileBased := true })).insertIfAbsent
    (.container "Container") |>.wrap ["base"] "app::Job"

/-- The container has no ordinary name, and the names of the job are its own. -/
theorem names_of_moduleGraph : moduleGraph.IsOrdinary ∧
    moduleGraph.allMemberNames = [("app__Job", "app::Job"), ("app__Job__autoloaded", "app::Job"),
      ("app__Job__proxy", "app::Job")] ∧
    (∃ files, moduleGraph.compile {} = .ok files) ∧
    checkNames [] moduleGraph.allMemberNames = .ok () := by
  have ordinary : moduleGraph.IsOrdinary := by
    intro k d hk named
    have listed : k ∈ moduleGraph.definitions.keys := by
      rw [Table.mem_keys_iff, Table.contains]
      exact Option.isSome_iff_exists.2 ⟨d, hk⟩
    have keys : moduleGraph.definitions.keys = ["Container", "app::Job"] := by
      decide +kernel
    rw [keys] at listed
    rcases List.mem_pair.1 listed with rfl | rfl
    · have container : moduleGraph.find? "Container" = some (.container "Container") := rfl
      exact absurd (Option.some.inj (hk.symm.trans container)) (named _)
    · decide +kernel
  have passes : moduleGraph.containerPasses {} (fun _ => true) = true := by
    decide +kernel
  obtain ⟨c, hc, -⟩ := Graph.exists_of_containerPasses passes
  refine ⟨ordinary, by decide +kernel, ⟨_, Graph.compile_of_container hc⟩, ?_⟩
  exact (names_of_conventional.2.2.2 moduleGraph ordinary).1

end Injector
