import Injector.Compilation
import Injector.Proofs.Fallible
import Mathlib.Logic.Relation

/-!
# How compilation fails

Compilation fails because of a name, or because a body that is written asks for an identifier whose
way ends in an error. Such a way ends at an identifier without a definition, at one without a branch
for the consumer, or at one that it has passed before.
-/

namespace Injector

/-! ### What bodies ask for -/

/-- The identifiers that the body of a definition asks for, each with the consumer it asks as. -/
def Definition.lookups : Definition → List (Option Identifier × Identifier)
  | .cls c => c.dependencies.map (some c.id, ·)
  | .alias a => if a.isContainer then [] else [(some a.id, a.target)]
  | .container _ => []
  | .perConsumer id .. => [(none, id)]
  | .autoloaded inner .. => inner.lookups

/-- Whether the body of a definition is written: always that of a class or behind a proxy, and that
of another definition if it is exposed. -/
def Definition.isWritten : Definition → Bool
  | .cls _ => true
  | .autoloaded .. => true
  | .container _ => false
  | d => d.isEntryPoint

namespace Graph

variable {g : Graph} {e : Error}

lemma target?_of_access {consumer : Option Identifier} {id : Identifier}
    (h : g.access consumer id = .error e) : g.target? consumer id = .error e :=
  map_eq_error.1 h

lemma exists_of_value {cls : Identifier} {s : Source} (h : g.value cls s = .error e) :
    ∃ j, s.dependency? = some j ∧ g.target? (some cls) j = .error e := by
  cases s with
  | dependency j => exact ⟨j, rfl, target?_of_access (map_eq_error.1 h)⟩
  | value | reference => cases h

lemma exists_of_construction {c : ClassDefinition} (h : g.construction c = .error e) :
    ∃ j ∈ c.dependencies, g.target? (some c.id) j = .error e := by
  -- arguments come before fields, and each may be the one that fails
  have source : ∃ s ∈ c.arguments.map (·.source) ++ c.fields.map (·.source),
      g.value c.id s = .error e := by
    rcases bind_eq_error.1 h with h | ⟨_, -, h⟩
    · obtain ⟨a, ha, h⟩ := exists_of_mapM_eq_error h
      exact ⟨a.source, List.mem_append_left _ (List.mem_map_of_mem ha), h⟩
    rcases bind_eq_error.1 h with h | ⟨_, -, h⟩
    · obtain ⟨f, hf, h⟩ := exists_of_mapM_eq_error h
      exact ⟨f.source, List.mem_append_right _ (List.mem_map_of_mem hf), map_eq_error.1 h⟩
    · cases h
  obtain ⟨s, hs, h⟩ := source
  obtain ⟨j, hj, h⟩ := exists_of_value h
  exact ⟨j, List.mem_filterMap.2 ⟨s, hs, hj⟩, h⟩

/-- A body that cannot be written asks for an identifier whose way ends in the error. -/
lemma exists_of_body {d : Definition} (h : g.body d = .error e) :
    ∃ q ∈ d.lookups, g.target? q.1 q.2 = .error e := by
  induction d using Definition.id.induct with
  | case1 c =>
    obtain ⟨j, hj, h⟩ := exists_of_construction (map_eq_error.1 h)
    exact ⟨_, List.mem_map_of_mem hj, h⟩
  | case2 a =>
    simp only [body] at h
    split at h
    · cases h
    · next ha => exact ⟨(some a.id, a.target), by simp [Definition.lookups, ha],
        target?_of_access (map_eq_error.1 h)⟩
  | case3 id => cases h
  | case4 id => exact ⟨(none, id), by simp [Definition.lookups],
      target?_of_access (map_eq_error.1 h)⟩
  | case5 inner _ _ ih => exact ih h

lemma body_of_placed {d : Definition} {name : String} (h : g.placed d name = .error e) :
    g.body d = .error e := by
  rcases bind_eq_error.1 h with h | ⟨_, -, h⟩
  · exact h
  · split at h <;> cases h

lemma isWritten_of_hasMethod {d : Definition} (h : hasMethod d) : d.isWritten := by
  cases d with
  | cls | autoloaded => rfl
  | «alias» | perConsumer => exact h
  | container => cases h

lemma body_of_emitPlain {d : Definition} (h : g.emitPlain d = .error e) :
    d.isWritten ∧ g.body d = .error e := by
  simp only [emitPlain] at h
  split at h
  · next hm =>
    rcases bind_eq_error.1 h with h | ⟨_, -, h⟩
    · exact ⟨isWritten_of_hasMethod hm, body_of_placed h⟩
    · cases h
  · split at h
    · rcases bind_eq_error.1 h with h | ⟨_, -, h⟩
      · exact ⟨rfl, h⟩
      · cases h
    · cases h

lemma body_of_emit {d : Definition} (h : g.emit d = .error e) :
    d.isWritten ∧ g.body d = .error e := by
  cases d with
  | autoloaded inner fileBased always =>
    rcases bind_eq_error.1 h with h | ⟨_, -, h⟩
    · exact ⟨rfl, body_of_placed (d := inner) h⟩
    · cases h
  | cls | «alias» | container | perConsumer => exact body_of_emitPlain h

lemma config_of_checkNames {owners names : List (String × Identifier)}
    (h : checkNames owners names = .error e) : ∃ fault, e = .config fault := by
  induction names generalizing owners with
  | nil => cases h
  | cons n names ih =>
    obtain ⟨name, id⟩ := n
    rw [checkNames] at h
    split at h
    · cases h
      exact ⟨_, rfl⟩
    · split at h
      · cases h
        exact ⟨_, rfl⟩
      · exact ih h

lemma exists_find?_of_mem_emissionOrder {d : Definition} (h : d ∈ g.emissionOrder) :
    ∃ k, g.find? k = some d := by
  obtain ⟨k, -, hk⟩ := List.mem_filterMap.1 h
  exact ⟨k, hk⟩

/-- Compilation fails because of the configuration, or of an identifier that a body asks for. -/
theorem exists_of_compile {config : Config} (h : g.compile config = .error e) :
    (∃ fault, e = .config fault) ∨
      ∃ k d, g.find? k = some d ∧ d.isWritten ∧
        ∃ q ∈ d.lookups, g.target? q.1 q.2 = .error e := by
  rcases bind_eq_error.1 (map_eq_error.1 h) with h | ⟨_, -, h⟩
  · exact .inl (config_of_checkNames h)
  rcases bind_eq_error.1 h with h | ⟨_, -, h⟩
  · obtain ⟨d, hd, h⟩ := exists_of_mapM_eq_error h
    obtain ⟨k, hk⟩ := exists_find?_of_mem_emissionOrder hd
    obtain ⟨written, h⟩ := body_of_emit h
    exact .inr ⟨k, d, hk, written, exists_of_body h⟩
  · cases h

/-! ### Compilation that succeeds -/

lemma target?_of_construction {c : ClassDefinition} {b : Construction}
    (h : g.construction c = .ok b) {j : Identifier} (hj : j ∈ c.dependencies) :
    ∃ t, g.target? (some c.id) j = .ok t := by
  have value : ∀ s, s.dependency? = some j → (∃ v, g.value c.id s = .ok v) →
      ∃ t, g.target? (some c.id) j = .ok t := by
    rintro s hs ⟨v, hv⟩
    cases s with
    | dependency j' =>
      cases hs
      obtain ⟨a, ha⟩ := exists_of_map_eq_ok hv
      exact exists_of_map_eq_ok ha
    | value | reference => cases hs
  obtain ⟨args, hargs, h⟩ := bind_eq_ok.1 h
  obtain ⟨fields, hfields, -⟩ := bind_eq_ok.1 h
  obtain ⟨s, hs, hsj⟩ := List.mem_filterMap.1 hj
  rcases List.mem_append.1 hs with hs | hs
  · obtain ⟨a, ha, rfl⟩ := List.mem_map.1 hs
    exact value _ hsj (forall_of_mapM_eq_ok hargs a ha)
  · obtain ⟨f, hf, rfl⟩ := List.mem_map.1 hs
    obtain ⟨v, hv⟩ := forall_of_mapM_eq_ok hfields f hf
    exact value _ hsj (exists_of_map_eq_ok hv)

lemma target?_of_body {d : Definition} {b : Body} (h : g.body d = .ok b)
    {q : Option Identifier × Identifier} (hq : q ∈ d.lookups) :
    ∃ t, g.target? q.1 q.2 = .ok t := by
  induction d using Definition.id.induct with
  | case1 c =>
    obtain ⟨j, hj, rfl⟩ := List.mem_map.1 hq
    obtain ⟨c', hc⟩ := exists_of_map_eq_ok h
    exact target?_of_construction hc hj
  | case2 a =>
    simp only [Definition.lookups] at hq
    split at hq
    · cases hq
    · next ha =>
      obtain rfl := List.mem_singleton.1 hq
      simp only [body, ha] at h
      obtain ⟨t, ht⟩ := exists_of_map_eq_ok h
      exact exists_of_map_eq_ok ht
  | case3 => cases hq
  | case4 id =>
    obtain rfl := List.mem_singleton.1 hq
    obtain ⟨t, ht⟩ := exists_of_map_eq_ok h
    exact exists_of_map_eq_ok ht
  | case5 inner _ _ ih => exact ih h hq

lemma exists_body_of_emit {d : Definition} {em : Emission} (h : g.emit d = .ok em)
    (written : d.isWritten) : ∃ b, g.body d = .ok b := by
  have plain : ∀ {d}, (hasMethod d ∨ ∃ c, d = .cls c) → g.emitPlain d = .ok em →
      ∃ b, g.body d = .ok b := by
    intro d kind h
    simp only [emitPlain] at h
    split at h
    · obtain ⟨p, hp, -⟩ := bind_eq_ok.1 h
      obtain ⟨b, hb, -⟩ := bind_eq_ok.1 hp
      exact ⟨b, hb⟩
    · next hm =>
      obtain ⟨c, rfl⟩ := kind.resolve_left hm
      obtain ⟨b, hb, -⟩ := bind_eq_ok.1 h
      exact ⟨b, hb⟩
  cases d with
  | autoloaded inner fileBased always =>
    obtain ⟨p, hp, -⟩ := bind_eq_ok.1 h
    obtain ⟨b, hb, -⟩ := bind_eq_ok.1 hp
    exact ⟨b, hb⟩
  | cls c => exact plain (.inr ⟨c, rfl⟩) h
  | «alias» | perConsumer => exact plain (.inl written) h
  | container => cases written

lemma mem_emissionOrder {d : Definition} : d ∈ g.emissionOrder ↔ ∃ k, g.find? k = some d := by
  refine ⟨exists_find?_of_mem_emissionOrder, ?_⟩
  rintro ⟨k, hk⟩
  refine List.mem_filterMap.2 ⟨k, ?_, hk⟩
  have hc : g.contains k = true := by simp [hk]
  simp only [emissionIds]
  by_cases declared : k ∈ g.entryPoints
  · exact List.mem_append_left _ (List.mem_filter.2 ⟨declared, hc⟩)
  · have hk : k ∈ g.identifiers := (g.definitions.mem_keys_iff k).2 hc
    exact List.mem_append_right _ (List.mem_filter.2 ⟨hk, by simpa using declared⟩)

/-- If compilation succeeds, what the written bodies ask for leads somewhere. -/
theorem target?_of_compile {config : Config} {a : Artifacts} (h : g.compile config = .ok a)
    {k : Identifier} {d : Definition} (hk : g.find? k = some d) (written : d.isWritten)
    {q : Option Identifier × Identifier} (hq : q ∈ d.lookups) :
    ∃ t, g.target? q.1 q.2 = .ok t := by
  obtain ⟨c, hc⟩ := exists_of_map_eq_ok h
  obtain ⟨_, -, hc⟩ := bind_eq_ok.1 hc
  obtain ⟨ems, hems, -⟩ := bind_eq_ok.1 hc
  obtain ⟨em, hem⟩ := forall_of_mapM_eq_ok hems d (mem_emissionOrder.2 ⟨k, hk⟩)
  obtain ⟨b, hb⟩ := exists_body_of_emit hem written
  exact target?_of_body hb hq

/-! ### How a way ends -/

/-- The way of a consumer goes on from one identifier to another. -/
def Passes (g : Graph) (consumer : Option Identifier) (a b : Identifier) : Prop :=
  ∃ d, g.find? a = some d ∧ d.hop consumer a = .ok (.next b)

/-- A way that ends in an error ends at an identifier that it reaches. -/
inductive Fails (g : Graph) (consumer : Option Identifier) (k : Identifier) : Error → Prop
  | undefined (absent : g.find? k = none) : Fails g consumer k (.unknownDefinition k)
  | unbound {d : Definition} {e : Error} (present : g.find? k = some d)
      (hop : d.hop consumer k = .error e) : Fails g consumer k e
  | repeated : Fails g consumer k (.config (.referenceCycle k))

lemma exists_of_targetWithin {consumer : Option Identifier} {unmet : List Identifier}
    {id : Identifier} (h : g.targetWithin consumer unmet id = .error e) :
    ∃ k, Relation.ReflTransGen (g.Passes consumer) id k ∧ g.Fails consumer k e := by
  fun_induction targetWithin g consumer unmet id with
  | case1 unmet id absent =>
    cases h
    exact ⟨id, .refl, .undefined absent⟩
  | case2 => cases h
  | case3 unmet id d present hu id' hop ih =>
    obtain ⟨k, way, fails⟩ := ih h
    exact ⟨k, .head ⟨d, present, hop⟩ way, fails⟩
  | case4 unmet id d present hu e' hop =>
    cases h
    exact ⟨id, .refl, .unbound present hop⟩
  | case5 unmet id d present hu =>
    cases h
    exact ⟨id, .refl, .repeated⟩

/-- What is asked for fails at an identifier on its way. -/
theorem exists_of_target? {consumer : Option Identifier} {id : Identifier}
    (h : g.target? consumer id = .error e) :
    ∃ k, Relation.ReflTransGen (g.Passes consumer) id k ∧ g.Fails consumer k e :=
  exists_of_targetWithin h

/-- A way that leads somewhere goes on, or ends well, at all that it reaches. -/
lemma hop_of_targetWithin {consumer : Option Identifier} {unmet : List Identifier}
    {id : Identifier} {t : Target} (h : g.targetWithin consumer unmet id = .ok t) {k : Identifier}
    (way : Relation.ReflTransGen (g.Passes consumer) id k) :
    ∃ d hop, g.find? k = some d ∧ d.hop consumer k = .ok hop := by
  fun_induction targetWithin g consumer unmet id with
  | case1 => cases h
  | case2 unmet id d present hu t' hop =>
    rcases Relation.ReflTransGen.cases_head way with rfl | ⟨id', ⟨d', hd', hop'⟩, -⟩
    · exact ⟨d, _, present, hop⟩
    · cases present.symm.trans hd'
      cases hop.symm.trans hop'
  | case3 unmet id d present hu id' hop ih =>
    rcases Relation.ReflTransGen.cases_head way with rfl | ⟨id'', ⟨d', hd', hop'⟩, way⟩
    · exact ⟨d, _, present, hop⟩
    · cases present.symm.trans hd'
      cases hop.symm.trans hop'
      exact ih h way
  | case4 => cases h
  | case5 => cases h

/-- A way that leads somewhere ends at an identifier that it reaches. -/
lemma exists_stop_of_targetWithin {consumer : Option Identifier} {unmet : List Identifier}
    {id : Identifier} {t : Target} (h : g.targetWithin consumer unmet id = .ok t) :
    ∃ k d, Relation.ReflTransGen (g.Passes consumer) id k ∧ g.find? k = some d ∧
      d.hop consumer k = .ok (.stop t) := by
  fun_induction targetWithin g consumer unmet id with
  | case1 => cases h
  | case2 unmet id d present hu t' hop =>
    cases h
    exact ⟨id, d, .refl, present, hop⟩
  | case3 unmet id d present hu id' hop ih =>
    obtain ⟨k, d', way, hk, stop⟩ := ih h
    exact ⟨k, d', .head ⟨d, present, hop⟩ way, hk, stop⟩
  | case4 => cases h
  | case5 => cases h

/-- What is built in the end is a class or behind a proxy, and the way to it reaches it. -/
theorem exists_factory_of_target? {consumer : Option Identifier} {id k : Identifier}
    (h : g.target? consumer id = .ok (.factory k)) :
    Relation.ReflTransGen (g.Passes consumer) id k ∧
      ∃ d, g.find? k = some d ∧
        ((∃ c, d = .cls c) ∨ ∃ inner fileBased always, d = .autoloaded inner fileBased always) := by
  obtain ⟨k', d, way, hd, stop⟩ := exists_stop_of_targetWithin h
  cases d with
  | cls c =>
    cases stop
    exact ⟨way, _, hd, .inl ⟨c, rfl⟩⟩
  | autoloaded inner fileBased always =>
    cases stop
    exact ⟨way, _, hd, .inr ⟨inner, fileBased, always, rfl⟩⟩
  | «alias» a =>
    simp only [Definition.hop] at stop
    split at stop <;> cases stop
  | container => cases stop
  | perConsumer _ _ _ default branches =>
    simp only [Definition.hop] at stop
    split at stop
    · next b _ =>
      cases b with
      | «alias» a =>
        simp only [Definition.branchHop] at stop
        split at stop <;> cases stop
      | cls | container | perConsumer | autoloaded => cases stop
    · cases stop

end Graph

end Injector
