import Injector.Proofs.Fallible
import Injector.Proofs.Resolution.Members
import Injector.Proofs.Resolution.Termination
import Injector.Session

/-!
# Resolutions of finitely many types

A provider that names finitely many types lets every resolution come to an end. What can be asked for
before it is defined are entry points, types that the provider names, and identifiers that a hint is
for or that it builds by. A pattern turns these into new identifiers, but each of those is defined by
the pattern that makes it, and no pattern is tried on it again.
-/

namespace Injector

/-! ### Types that are named -/

/-- A provider names no other types than those of a list. -/
structure Provider.NamesOnly (p : Provider) (types : List Identifier) : Prop where
  parameters : ∀ cls ps, p.parameters cls = .ok ps → ∀ q ∈ ps, ∀ k, q.type = some k → k ∈ types
  fields : ∀ cls fs, p.fields cls = .ok fs → ∀ f ∈ fs, ∀ k, f.type = some k → k ∈ types

/-- The types of all parameters and fields that are described. -/
def Metadata.namedTypes (m : Metadata) : List Identifier :=
  m.values.flatMap fun t => t.parameters.filterMap (·.type) ++ t.fields.filterMap (·.type)

lemma Metadata.mem_values_of_describeConcrete {m : Metadata} {cls : Identifier} {t : TypeInfo}
    (h : m.describeConcrete cls = .ok t) : t ∈ m.values := by
  cases found : m.find? cls with
  | none => simp [describeConcrete, describe, found] at h
  | some t' =>
    obtain rfl : t' = t := by
      simp only [describeConcrete, describe, found] at h
      split at h <;> cases h
      rfl
    exact List.mem_map.2 ⟨(cls, t'), (m.mem_entries_iff_find? cls t').2 found, rfl⟩

/-- A table of types names finitely many. -/
lemma Metadata.namesOnly_provider (m : Metadata) : m.provider.NamesOnly m.namedTypes where
  parameters cls ps h q hq k hk := by
    obtain ⟨t, ht⟩ := exists_of_map_eq_ok h
    have eq : (m.describeConcrete cls).map (·.parameters) = .ok ps := h
    rw [ht] at eq
    cases eq
    exact List.mem_flatMap.2 ⟨t, mem_values_of_describeConcrete ht,
      List.mem_append_left _ (List.mem_filterMap.2 ⟨q, hq, hk⟩)⟩
  fields cls fs h f hf k hk := by
    obtain ⟨t, ht⟩ := exists_of_map_eq_ok h
    have eq : (m.describeConcrete cls).map (·.fields) = .ok fs := h
    rw [ht] at eq
    cases eq
    exact List.mem_flatMap.2 ⟨t, mem_values_of_describeConcrete ht,
      List.mem_append_right _ (List.mem_filterMap.2 ⟨f, hf, hk⟩)⟩

namespace Provider

variable {p : Provider} {types : List Identifier}

lemma eq_of_unlessRefused {α : Type} {reasons : Table String} {answer : Identifier → Except Error α}
    {id : Identifier} {a : α} (h : unlessRefused reasons answer id = .ok a) : answer id = .ok a := by
  simp only [unlessRefused] at h
  split at h
  · cases h
  · exact h

/-- What is refused names nothing. -/
lemma NamesOnly.refusing (h : p.NamesOnly types) (r : Refusals) :
    (p.refusing r).NamesOnly types where
  parameters cls ps hp := h.parameters cls ps (eq_of_unlessRefused hp)
  fields cls fs hf := h.fields cls fs (eq_of_unlessRefused hf)

end Provider

lemma Parameter.type_of_source? {overrides : Overrides} {p : Parameter} {k : Identifier}
    (h : p.source? overrides = some (.dependency k)) : p.type = some k := by
  generalize hs : Source.dependency k = s at h
  cases p.gets_of_source? h with
  | @overridden value => cases value <;> cases hs
  | «optional» => cases hs
  | injected _ _ typed =>
    cases hs
    exact typed

lemma Field.type_of_source? {overrides : Overrides} {f : Field} {k : Identifier}
    (h : f.source? overrides = some (.dependency k)) : f.type = some k := by
  generalize hs : Source.dependency k = s at h
  cases f.gets_of_source? h with
  | @overridden value => cases value <;> cases hs
  | injected _ typed =>
    cases hs
    exact typed

/-- The identifiers that hints for one identifier are for, and by which they build it. -/
def HintTable.named (t : HintTable) : List Identifier :=
  t.exact.entries.flatMap fun e => e.1 :: (Hint.exact e.2).targets e.1

lemma HintTable.mem_named {t : HintTable} {k j : Identifier} {b : Binding}
    (h : t.exact.find? k = some b) (hj : j = k ∨ j ∈ (Hint.exact b).targets k) : j ∈ t.named :=
  List.mem_flatMap.2 ⟨(k, b), (t.exact.mem_entries_iff_find? k b).2 h, List.mem_cons.2 hj⟩

lemma HintTable.mem_named_of_not_leavesAlone {t : HintTable} {k : Identifier}
    (h : ¬t.leavesAlone k) : k ∈ t.named := by
  cases found : t.exact.find? k with
  | none => simp [leavesAlone, found] at h
  | some b => exact mem_named found (.inl rfl)

/-! ### What tasks ask for -/

lemma source_of_mem_memberTasks {c : ClassDefinition} {kind : MemberKind} {placed b : Bool}
    {name : String} {source : Option Source} {k : Identifier} {consumer : Option Identifier}
    (h : .request k consumer b ∈ memberTasks c kind placed name source) :
    source = some (.dependency k) := by
  simp only [memberTasks] at h
  split at h
  · rcases List.mem_pair.1 h with h | h
    · cases h
      rfl
    · cases h
  · cases h
  · cases List.mem_singleton.1 h

lemma not_request_mem_overrideTasks {c : ClassDefinition} {kind : MemberKind}
    {overrides : Overrides} {names : List String} {k : Identifier} {consumer : Option Identifier}
    {b : Bool} : .request k consumer b ∉ overrideTasks c kind overrides names := by
  simp only [overrideTasks]
  split <;> simp

lemma exists_parameter_of_request {c : ClassDefinition} {placed b : Bool} {ps : List Parameter}
    {k : Identifier} {consumer : Option Identifier}
    (h : .request k consumer b ∈ parameterTasks c placed ps) : ∃ p ∈ ps, p.type = some k := by
  rcases List.mem_append.1 h with h | h
  · obtain ⟨p, hp, h⟩ := List.mem_flatMap.1 h
    exact ⟨p, hp, p.type_of_source? (source_of_mem_memberTasks h)⟩
  · exact absurd h not_request_mem_overrideTasks

lemma exists_field_of_request {c : ClassDefinition} {placed b : Bool} {fs : List Field}
    {k : Identifier} {consumer : Option Identifier}
    (h : .request k consumer b ∈ fieldTasks c placed fs) : ∃ f ∈ fs, f.type = some k := by
  rcases List.mem_append.1 h with h | h
  · obtain ⟨f, hf, h⟩ := List.mem_flatMap.1 h
    simp only [fieldTask] at h
    split at h
    · split at h
      · cases List.mem_singleton.1 h
      · exact ⟨f, hf, f.type_of_source? (source_of_mem_memberTasks h)⟩
    · cases h
  · exact absurd h not_request_mem_overrideTasks

namespace Wiring

variable {w : Wiring} {types roots : List Identifier} {g g' : Graph} {t : Task}
  {next : List Task}

lemma not_request_mem_directTasks {id k : Identifier} {consumer consumer' : Option Identifier}
    {d : Definition} {b : Bool} : .request k consumer' b ∉ directTasks id consumer d := by
  simp only [directTasks]
  split <;> simp

/-- Once its hint has unfolded an identifier, that one is asked for, or what its definition names. -/
lemma named_of_mem_hintedTasks {hint : Hint} {id k : Identifier} {d : Definition}
    {rest : List (Identifier × Definition)} {consumer consumer' : Option Identifier}
    {placed b : Bool} (absent : g.find? id = none) (unfolds : w.Unfolds hint id d rest)
    (h : .request k consumer' b ∈ hintedTasks (g.insertAll ((id, d) :: rest)).1 id consumer placed
      (g.insertAll ((id, d) :: rest)).2) : k = id ∨ k ∈ d.namedDependencies := by
  have requested : ∀ {ks : List Identifier},
      .request k consumer' b ∈ ks.map (fun j => Task.request j (some id) placed) → k ∈ ks := by
    intro ks h
    obtain ⟨j, hj, eq⟩ := List.mem_map.1 h
    cases eq
    exact hj
  rw [hintedTasks, unfolds.find?_first absent] at h
  rcases List.mem_append.1 h with h | h
  · obtain ⟨hk, hne⟩ := List.mem_filter.1 (requested h)
    obtain ⟨-, d', hd'⟩ := (Graph.mem_new_insertAll unfolds.keyed).1 hk
    rcases List.mem_cons.1 hd' with eq | hd'
    · cases eq
      exact .inl rfl
    · exact .inr (unfolds.named _ hd')
  · split at h
    · cases h
    · cases List.mem_singleton.1 h
      exact .inl rfl
    · next eq =>
      cases eq
      rcases List.mem_append.1 h with h | h
      · exact .inr (Definition.mem_dependencies.1 (requested h))
      · exact absurd h not_request_mem_directTasks

/-! ### What a step leaves -/

/-- Every definition is called by its key. -/
def IsKeyed (g : Graph) : Prop := ∀ k s, g.shape? k = some s → s.id = k

lemma IsKeyed.perform (keyed : IsKeyed g) (h : w.perform g t = .ok (g', next)) : IsKeyed g' := by
  intro k s hs
  rcases shape?_of_perform h with ⟨id, consumer, placed, -, absent, h⟩ | same
  · obtain ⟨d, hd, rfl⟩ := Graph.exists_find?_of_shape? hs
    rw [Definition.id_shape]
    have old : ∀ {d}, g.find? k = some d → d.id = k := fun hd => by
      rw [← Definition.id_shape]
      exact keyed k _ (Graph.shape?_of_find? hd)
    rcases cases_of_define h with ⟨hint, d₁, rest, unfolds, rfl, -⟩ | ⟨c, new, rfl, -⟩
    · rw [Graph.find?_insertAll g unfolds.keyed] at hd
      rcases Option.or_eq_some_iff.1 hd with hd | ⟨-, hd⟩
      · exact old hd
      · exact unfolds.keyed _ (mem_of_lookup hd)
    · rw [Graph.find?_insertIfAbsent, new.id_eq] at hd
      split at hd
      · next eq =>
        subst eq
        rw [absent] at hd
        cases hd
        exact new.id_eq
      · exact old hd
  · exact keyed k s ((same k).symm.trans hs)

lemma isKeyed_start (w : Wiring) (roots : List Identifier) : IsKeyed (w.start roots) := by
  intro k s hs
  obtain ⟨d, hd, rfl⟩ := Graph.exists_find?_of_shape? hs
  rw [Definition.id_shape]
  rw [find?_start, find?_seed] at hd
  split at hd
  · next eq =>
    cases hd
    exact eq.symm
  · split at hd <;> cases hd
    rfl

/-! ### What can be asked for -/

/-- What can be asked for before it is defined. -/
def askable (w : Wiring) (types roots : List Identifier) : List Identifier :=
  roots ++ types ++ w.hints.named

/-- What can be asked for at all: besides, the identifiers that patterns make. -/
def reachable (w : Wiring) (types roots : List Identifier) : List Identifier :=
  w.askable types roots ++
    (w.askable types roots).flatMap fun k => w.hints.wildcards.filterMap (·.targetFor? k)

/-- All that is asked for is among finitely many identifiers, and what is made by a pattern is
defined before it is asked for. -/
structure Bounded (w : Wiring) (types roots : List Identifier) (g : Graph) (ts : List Task) :
    Prop where
  keyed : IsKeyed g
  requested : ∀ k consumer placed, .request k consumer placed ∈ ts →
    k ∈ w.askable types roots ∨ k ∈ w.reachable types roots ∧ g.contains k

lemma mem_askable_of_type {k : Identifier} (h : k ∈ types) : k ∈ w.askable types roots :=
  List.mem_append_left _ (List.mem_append_right _ h)

lemma mem_askable_of_named {k : Identifier} (h : k ∈ w.hints.named) :
    k ∈ w.askable types roots :=
  List.mem_append_right _ h

lemma bounded_start (w : Wiring) (types roots : List Identifier) :
    w.Bounded types roots (w.start roots) (roots.map w.rootTask) where
  keyed := isKeyed_start w roots
  requested k consumer placed h := by
    obtain ⟨r, hr, eq⟩ := List.mem_map.1 h
    cases eq
    exact .inl (List.mem_append_left _ (List.mem_append_left _ hr))

/-- What a hint names can be asked for, or a pattern makes it and it is defined. -/
lemma Unfolds.askable {hint : Hint} {id k : Identifier} {d : Definition}
    {rest : List (Identifier × Definition)} (unfolds : w.Unfolds hint id d rest)
    (asked : id ∈ w.askable types roots) (hk : k ∈ d.namedDependencies) :
    k ∈ w.askable types roots ∨
      k ∈ w.reachable types roots ∧ (g.insertAll ((id, d) :: rest)).1.contains k := by
  by_cases alone : w.hints.leavesAlone k
  · have target := unfolds.targets k hk
    have found := unfolds.found
    cases hint with
    | exact b =>
      have exact := HintTable.find?_exact_of_find? found
      exact .inl (mem_askable_of_named (HintTable.mem_named exact (.inr target)))
    | wildcard hint =>
      right
      have mem := HintTable.mem_wildcards_of_find? found
      refine ⟨List.mem_append_right _ (List.mem_flatMap.2 ⟨id, asked, List.mem_filterMap.2
        ⟨hint, mem, Option.mem_toList.1 target⟩⟩), ?_⟩
      -- the pattern defines what it makes, since no hint takes that elsewhere
      obtain ⟨e, he, rfl⟩ := unfolds.complete k hk alone
      rw [Graph.contains_eq, Graph.find?_insertAll g unfolds.keyed, Option.isSome_or,
        List.lookup_isSome_iff.2 ⟨e, List.mem_cons_of_mem _ he, beq_self_eq_true e.1⟩, Bool.or_true]
  · exact .inl (mem_askable_of_named (HintTable.mem_named_of_not_leavesAlone alone))

section Names

variable (names : w.provider.NamesOnly types)
include names

lemma mem_types_of_discover {c : ClassDefinition} {placed b : Bool} {k : Identifier}
    {consumer : Option Identifier} (h : w.discover g c placed = .ok (g', next))
    (hk : .request k consumer b ∈ next) : k ∈ types := by
  obtain ⟨_, -, h⟩ := bind_eq_ok.1 h
  obtain ⟨ps, hps, h⟩ := bind_eq_ok.1 h
  cases h
  rcases List.mem_append.1 hk with hk | hk
  · split at hk
    · next enabled =>
      rw [parametersOf, if_pos enabled] at hps
      obtain ⟨p, hp, typed⟩ := exists_parameter_of_request hk
      exact names.parameters _ _ hps p hp k typed
    · cases hk
  · cases List.mem_singleton.1 hk

lemma mem_types_of_discoverFields {c : ClassDefinition} {placed b : Bool} {k : Identifier}
    {consumer : Option Identifier} (h : w.discoverFields g c placed = .ok (g', next))
    (hk : .request k consumer b ∈ next) : k ∈ types := by
  obtain ⟨fs, hfs, h⟩ := bind_eq_ok.1 h
  cases h
  rcases List.mem_append.1 hk with hk | hk
  · split at hk
    · next enabled =>
      rw [fieldsOf, if_pos enabled] at hfs
      obtain ⟨f, hf, typed⟩ := exists_field_of_request hk
      exact names.fields _ _ hfs f hf k typed
    · cases hk
  · cases List.mem_singleton.1 hk

/-- What a task asks for can be asked for. -/
lemma Bounded.requested_next {rest : List Task} (b : w.Bounded types roots g (t :: rest))
    (h : w.perform g t = .ok (g', next)) {k : Identifier} {consumer : Option Identifier}
    {placed : Bool} (hk : .request k consumer placed ∈ next) :
    k ∈ w.askable types roots ∨ k ∈ w.reachable types roots ∧ g'.contains k := by
  cases t with
  | request id consumer' placed' =>
    have asked := b.requested _ _ _ List.mem_cons_self
    simp only [perform] at h
    split at h
    · next absent =>
      have asked : id ∈ w.askable types roots := asked.resolve_right (by simp [absent])
      rcases cases_of_define h with ⟨hint, d, made, unfolds, rfl, rfl⟩ | ⟨c, -, -, rfl⟩
      · rcases List.mem_append.1 hk with hk | hk
        · rcases named_of_mem_hintedTasks absent unfolds hk with rfl | hk
          · exact .inl asked
          · exact unfolds.askable asked hk
        · cases List.mem_singleton.1 hk
      · cases List.mem_singleton.1 hk
        exact .inl asked
    · split at h
      · exact .inl (mem_askable_of_type (mem_types_of_discover names h hk))
      · cases h
        cases hk
    · cases h
      cases List.mem_singleton.1 hk
  | check id consumer' =>
    obtain ⟨_, -, h⟩ := bind_eq_ok.1 h
    cases h
    cases hk
  | count id consumer' singleton =>
    cases h
    cases hk
  | discoverFields c placed' =>
    exact .inl (mem_askable_of_type (mem_types_of_discoverFields names h hk))
  | complete c =>
    cases h
    cases hk
  | fail e => cases h

lemma bounded_next {rest : List Task} (b : w.Bounded types roots g (t :: rest))
    (h : w.perform g t = .ok (g', next)) : w.Bounded types roots g' (next ++ rest) where
  keyed := b.keyed.perform h
  requested k consumer placed hk := by
    rcases List.mem_append.1 hk with hk | hk
    · exact b.requested_next names h hk
    · refine (b.requested _ _ _ (List.mem_cons_of_mem t hk)).imp_right ?_
      exact And.imp_right (keeps_of_perform h).contains

/-- With a provider that names finitely many types every resolution comes to an end. -/
theorem isSome_run_of_namesOnly (roots : List Identifier) :
    (w.run (w.start roots) (roots.map w.rootTask)).isSome := by
  refine isSome_run (P := w.Bounded types roots) (w.reachable types roots) ?_ ?_
    (fun b h => bounded_next names b h) _ _ (bounded_start w types roots)
  · intro g ts b k d hd
    rw [← Definition.id_shape]
    exact b.keyed k _ (Graph.shape?_of_find? hd)
  · intro g ts b k consumer placed hk
    exact (b.requested k consumer placed hk).elim (List.mem_append_left _) And.left

end Names

/-! ### Bounded runs -/

/-- A resolution whose run comes to an end does so within some number of steps. -/
lemma exists_resolveWithin {roots : List Identifier}
    (h : (w.run (w.start roots) (roots.map w.rootTask)).isSome) :
    ∃ n, w.resolveWithin n roots = some (w.resolve roots) := by
  obtain ⟨r, hr⟩ := Option.isSome_iff_exists.1 h
  obtain ⟨n, hn⟩ := exists_runFor_of_run hr
  have within : ∃ outcome, w.resolveWithin n roots = some outcome := by
    rw [resolveWithin, hn]
    exact ⟨_, rfl⟩
  obtain ⟨outcome, within⟩ := within
  exact ⟨n, by rw [within, resolve_of_resolveWithin within]⟩

end Wiring

/-! ### Sessions -/

namespace Session

/-- A session comes to an end when it is asked for the graph of all entry points, or of one. -/
inductive Ends (s : Session) (entry : Option Identifier) : Prop
  /-- The configuration is refused. -/
  | unwired {e : Error} (refused : s.wiring = .error e)
  | undeclared {w : Wiring} {id : Identifier} (wired : s.wiring = .ok w) (asked : entry = some id)
      (unknown : w.entries.contains id = false)
  /-- The session answers what a bounded number of steps comes to. -/
  | within {w : Wiring} (n : Nat) (wired : s.wiring = .ok w)
      (answer : w.resolveWithin n (w.rootsFor entry) = some (s.resolve entry))

/-- A session with a provider that names finitely many types always comes to an end. -/
lemma ends_of_namesOnly {s : Session} {types : List Identifier} (names : s.provider.NamesOnly types)
    (entry : Option Identifier) : s.Ends entry := by
  cases wired : s.wiring with
  | error e => exact .unwired wired
  | ok w =>
    have provided : w.provider = s.provider := by
      obtain ⟨_, -, h⟩ := bind_eq_ok.1 wired
      obtain ⟨_, -, h⟩ := bind_eq_ok.1 h
      cases h
      rfl
    obtain ⟨n, hn⟩ := Wiring.exists_resolveWithin
      (Wiring.isSome_run_of_namesOnly (w := w) (provided ▸ names) (w.rootsFor entry))
    have answer : s.resolve entry = w.resolveFor entry := by
      rw [Session.resolve, wired]
      rfl
    cases entry with
    | none => exact .within n wired (answer ▸ hn)
    | some id =>
      by_cases known : w.entries.contains id
      · rw [Wiring.resolveFor, Wiring.resolveOne, if_pos known] at answer
        exact .within n wired (answer ▸ hn)
      · exact .undeclared wired rfl (by simpa using known)

end Session

/-- With a table of types, some questions about which may be refused, every resolution comes to an
end, whatever is configured. -/
theorem ends_of_metadata (config : Config) (m : Metadata) (refused : Provider.Refusals)
    (mode : Mode) (entry : Option Identifier) :
    (⟨config, m.provider.refusing refused, mode⟩ : Session).Ends entry :=
  Session.ends_of_namesOnly (m.namesOnly_provider.refusing refused) entry

/-- A pattern that matches what it makes is not tried on that. -/
example :
    (Wiring.ofConfig
      { entryPoints := [{ target := .single "UserRepository" }]
        wildcards := [{ source := "*Repository", target := "Mysql*Repository" }] }
      (Metadata.provider (.ofList [("MysqlUserRepository", {})])) .compile).toOption.any
      (·.passesWithin 20 ["UserRepository"] (·.size = 3)) = true := by
  decide +kernel

end Injector
