import Injector.Proofs.Resolution.Step

/-!
# Invariants of resolution

What holds in every state of a resolution that succeeds: how the definitions were made, how far the
discovery of each class has come, that all that is needed is there or still asked for, and that
nothing else is.
-/

namespace Injector.Wiring

variable {w : Wiring} {roots : List Identifier}

/-- The states of the resolution of some entry points. -/
def Visits (w : Wiring) (roots : List Identifier) : Graph → List Task → Prop :=
  w.Leads (w.start roots) (roots.map w.rootTask)

/-- The resolution of some entry points comes to an end with a graph. -/
def Yields (w : Wiring) (roots : List Identifier) (g : Graph) : Prop :=
  w.run (w.start roots) (roots.map w.rootTask) = some (.ok g)

lemma Yields.visits {g : Graph} (ok : w.Yields roots g) : w.Visits roots g [] :=
  leads_of_run ok

lemma Yields.keeps {g h : Graph} {us : List Task} (ok : w.Yields roots g)
    (v : w.Visits roots h us) : h.Keeps g := by
  have outcome : w.run h us = some (.ok g) := v.run_eq.trans ok
  exact (leads_of_run outcome).keeps outcome

lemma find?_start (w : Wiring) (roots : List Identifier) (k : Identifier) :
    (w.start roots).find? k = (seed w.config).find? k := by
  simp only [start]
  generalize seed w.config = g
  induction roots generalizing g with
  | nil => rfl
  | cons r roots ih => rw [List.foldl_cons, ih, Graph.find?_declare]

/-- At first there are no classes. -/
lemma find?_start_ne_cls (w : Wiring) (roots : List Identifier) (k : Identifier)
    (c : ClassDefinition) : (w.start roots).find? k ≠ some (.cls c) := by
  intro hk
  rw [find?_start, find?_seed] at hk
  split at hk
  · cases hk
  · split at hk <;> cases hk

lemma Step.entryPoints {g g' : Graph} {t : Task} {next : List Task} (h : w.Step g t g' next) :
    g'.entryPoints = g.entryPoints := by
  cases h with
  | own => exact Graph.entryPoints_insertIfAbsent ..
  | bind => exact Graph.entryPoints_insertAll ..
  | count => exact Graph.entryPoints_recordReference ..
  | discover | known | bound | check | discoverFields | complete => rfl

lemma entryPoints_start (w : Wiring) (roots : List Identifier) :
    (w.start roots).entryPoints = firstOccurrences roots := by
  have none : (seed w.config).entryPoints = [] := by
    have fold : ∀ (ks : List Identifier) (g : Graph) (f : Identifier → Definition),
        (ks.foldl (fun g k => g.insertIfAbsent (f k)) g).entryPoints = g.entryPoints := by
      intro ks
      induction ks with
      | nil => exact fun _ _ => rfl
      | cons k ks ih => exact fun g f => (ih _ f).trans (g.entryPoints_insertIfAbsent (f k))
    exact (fold _ _ _).trans (Graph.entryPoints_insertIfAbsent _ _)
  rw [start, Graph.entryPoints_foldl_declare, none]
  rfl

/-- The entry points of a graph are those that it was asked for. -/
lemma Yields.entryPoints {g : Graph} (ok : w.Yields roots g) :
    g.entryPoints = firstOccurrences roots :=
  Leads.invariant ok (P := fun g _ => g.entryPoints = firstOccurrences roots)
    (entryPoints_start w roots) (fun _ _ before step => step.entryPoints.trans before) ok.visits

/-! ### Where definitions come from -/

/-- Every definition is there from the beginning or was made by resolution. -/
def Original (w : Wiring) (g : Graph) : Prop :=
  ∀ k s, g.shape? k = some s → (seed w.config).find? k = some s ∨ w.Newborn k s

lemma shape?_seed (c : Config) (k : Identifier) : (seed c).shape? k = (seed c).find? k := by
  rw [Graph.shape?, find?_seed]
  split
  · rfl
  · split <;> rfl

lemma original_start (w : Wiring) (roots : List Identifier) : w.Original (w.start roots) := by
  intro k s hk
  rw [Graph.shape?, find?_start] at hk
  exact .inl ((shape?_seed w.config k).symm.trans hk)

lemma Original.of_shape?_eq {g g' : Graph} (o : w.Original g)
    (h : ∀ k, g'.shape? k = g.shape? k) : w.Original g' :=
  fun k s hk => o k s ((h k).symm.trans hk)

lemma Step.original {g g' : Graph} {t : Task} {next : List Task} (h : w.Step g t g' next)
    (o : w.Original g) : w.Original g' := by
  cases h with
  | @own id consumer placed c _ absent new =>
    intro k s hk
    have hid : (Definition.cls c).id = id := new.id_eq
    rw [Graph.shape?, Graph.find?_insertIfAbsent, hid] at hk
    split at hk
    · next h =>
      subst h
      rw [absent] at hk
      obtain rfl : (Definition.cls c).shape = s := by simpa using hk
      exact .inr (new.shape_eq.symm ▸ new)
    · exact o k s hk
  | bind absent expansion =>
    intro k s hk
    rw [Graph.shape?, Graph.find?_insertAll g expansion.keyed] at hk
    obtain ⟨d, hd, rfl⟩ := Option.map_eq_some_iff.1 hk
    rcases Option.or_eq_some_iff.1 hd with hd | ⟨-, hd⟩
    · exact o k _ (Graph.shape?_of_find? hd)
    · have new := expansion.newborn (mem_of_lookup hd)
      exact .inr (new.shape_eq.symm ▸ new)
  | discover => exact o.of_shape?_eq (Graph.shape?_adjust Definition.shape_begun g _)
  | count => exact o.of_shape?_eq (Graph.shape?_recordReference g _ _ _)
  | complete c => exact o.of_shape?_eq (Graph.shape?_adjust (Definition.shape_completed c) g _)
  | known | bound | check | discoverFields => exact o

lemma original_of_visits {g h : Graph} {us : List Task} (ok : w.Yields roots g)
    (v : w.Visits roots h us) : w.Original h :=
  Leads.invariant ok (P := fun h _ => w.Original h) (original_start w roots)
    (fun _ _ o step => step.original o) v

lemma Yields.original {g : Graph} (ok : w.Yields roots g) : w.Original g :=
  original_of_visits ok ok.visits

/-- A definition is the container, stands for it, or was made by resolution. -/
lemma Original.cases {g : Graph} (o : w.Original g) {k : Identifier} {d : Definition}
    (hk : g.find? k = some d) :
    (k = w.config.container.name ∧ d = .container k) ∨
      (k ≠ w.config.container.name ∧ k ∈ w.config.container.interfaces ∧
        ∃ a, d = .alias a ∧ a.id = k ∧ a.isContainer ∧ a.entryPoint = false) ∨
      w.Newborn k d.shape := by
  rcases o k _ (Graph.shape?_of_find? hk) with h | h
  · rw [find?_seed] at h
    split at h
    · next hn =>
      refine .inl ⟨hn, ?_⟩
      cases d <;> simp_all [Definition.shape]
    · next hn =>
      split at h
      · next hi =>
        obtain ⟨a, rfl, shape⟩ := Definition.eq_alias_of_shape_eq (Option.some.inj h).symm
        refine .inr (.inl ⟨hn, hi, a, rfl, ?_⟩)
        cases a
        cases shape
        exact ⟨rfl, rfl, rfl⟩
      · cases h
  · exact .inr (.inr h)

/-- Resolution makes nothing in the place of the container and its interfaces. -/
lemma Yields.absent_of_newborn {g : Graph} (ok : w.Yields roots g) {k : Identifier}
    {d : Definition} (hk : g.find? k = some d) (new : w.Newborn k d.shape) :
    (seed w.config).find? k = none := by
  by_contra hs
  obtain ⟨s, hs⟩ := Option.ne_none_iff_exists'.1 hs
  have start : (w.start roots).shape? k = some s := by
    rw [Graph.shape?, find?_start]
    exact (shape?_seed w.config k).trans hs
  have kept : some d.shape = some s := (Graph.shape?_of_find? hk).symm.trans (ok.keeps .refl k s start)
  rw [Option.some.inj kept] at new
  rw [find?_seed] at hs
  split at hs
  · cases hs
    cases new.plain
  · split at hs
    · cases hs
      cases new.plain with
      | forwarding h => cases h
    · cases hs

/-- An identifier is exposed if it is declared and stands for something else than the container. -/
lemma Yields.isEntryPoint_iff {g : Graph} (ok : w.Yields roots g) {k : Identifier}
    {d : Definition} (hk : g.find? k = some d) :
    d.isEntryPoint ↔ w.entries.contains k ∧ k ≠ w.config.container.name ∧
      k ∉ w.config.container.interfaces := by
  rcases ok.original.cases hk with
    ⟨rfl, rfl⟩ | ⟨-, hi, a, rfl, -, -, exposed⟩ | new
  · simp [Definition.isEntryPoint]
  · simp [Definition.isEntryPoint, exposed, hi]
  · have absent := ok.absent_of_newborn hk new
    rw [find?_seed] at absent
    rw [← Definition.isEntryPoint_shape, new.exposed]
    split at absent
    · cases absent
    · next hn =>
      split at absent
      · cases absent
      · next hi => simp [hn, hi]

/-- A definition is called by its key. -/
lemma Original.id_eq {g : Graph} (o : w.Original g) {k : Identifier} {d : Definition}
    (hk : g.find? k = some d) : d.id = k := by
  rcases o.cases hk with ⟨-, rfl⟩ | ⟨-, -, a, rfl, hid, -⟩ | h
  · rfl
  · exact hid
  · rw [← Definition.id_shape, h.id_eq]

/-- Resolution made every identifier with branches. -/
lemma Original.newborn_perConsumer {g : Graph} (o : w.Original g) {k id : Identifier}
    {scope : Scope} {entryPoint : Bool} {default : Option Definition}
    {branches : List (Identifier × Definition)}
    (hk : g.find? k = some (.perConsumer id scope entryPoint default branches)) :
    w.Newborn k (.perConsumer id scope entryPoint default branches) := by
  rcases o.cases hk with ⟨-, h⟩ | ⟨-, -, a, h, -⟩ | h
  · cases h
  · cases h
  · exact h

/-- Resolution made every alias that does not stand for the container. -/
lemma Original.newborn_alias {g : Graph} (o : w.Original g) {k : Identifier} {a : Alias}
    (hk : g.find? k = some (.alias a)) (own : a.isContainer = false) :
    w.Newborn k (Definition.alias a).shape := by
  rcases o.cases hk with ⟨-, h⟩ | ⟨-, -, a', h, -, container, -⟩ | h
  · cases h
  · cases h
    simp [own] at container
  · exact h

/-- There are no proxies as long as resolution goes on. -/
lemma Original.ne_autoloaded {g : Graph} (o : w.Original g) {k : Identifier} {inner : Definition}
    {fileBased : Bool} {always : List String} :
    g.find? k ≠ some (.autoloaded inner fileBased always) := by
  intro hk
  rcases o.cases hk with ⟨-, h⟩ | ⟨-, -, a, h, -⟩ | h
  · cases h
  · cases h
  · cases h.plain

/-! ### What a step does to a definition -/

/-- What doing a task makes of a definition that was there before. -/
inductive Alters (t : Task) (k : Identifier) (d : Definition) : Definition → Prop
  | kept : Alters t k d d
  | begun {consumer : Option Identifier} {placed : Bool} {c : ClassDefinition}
      (discover : t = .request k consumer placed) (pending : c.progress = .pending)
      (eq : d = .cls c) : Alters t k d (.cls { c with progress := .inProgress })
  | counted {id consumer : Identifier} {singleton : Bool}
      (count : t = .count id consumer singleton) : Alters t k d (d.addReferrer consumer singleton)
  | completed {c : ClassDefinition} (complete : t = .complete c) (eq : c.id = k) :
      Alters t k d (d.completed c)

/-- A definition after a step is new, or one from before with something filled in. -/
lemma Step.find?_cases {g g' : Graph} {t : Task} {next : List Task} (h : w.Step g t g' next)
    (o : w.Original g) {k : Identifier} {d' : Definition} (hk : g'.find? k = some d') :
    (g.find? k = none ∧ w.Newborn k d') ∨ ∃ d, g.find? k = some d ∧ Alters t k d d' := by
  cases h with
  | @own id consumer placed c _ absent new =>
    have hid : (Definition.cls c).id = id := new.id_eq
    rw [Graph.find?_insertIfAbsent, hid] at hk
    split at hk
    · next h =>
      subst h
      rw [absent] at hk
      obtain rfl : .cls c = d' := by simpa using hk
      exact .inl ⟨absent, new⟩
    · exact .inr ⟨d', hk, .kept⟩
  | bind absent expansion =>
    rw [Graph.find?_insertAll g expansion.keyed] at hk
    rcases Option.or_eq_some_iff.1 hk with hk | ⟨hn, hk⟩
    · exact .inr ⟨d', hk, .kept⟩
    · exact .inl ⟨hn, expansion.newborn (mem_of_lookup hk)⟩
  | @discover id consumer placed c found present pending =>
    have hid : c.id = id := o.id_eq present
    rw [Graph.find?_adjust, hid] at hk
    split at hk
    · next h =>
      subst h
      rw [present] at hk
      obtain rfl : (Definition.cls c).begun = d' := by simpa using hk
      exact .inr ⟨_, present, .begun rfl pending rfl⟩
    · exact .inr ⟨d', hk, .kept⟩
  | count id consumer singleton =>
    rw [Graph.find?_recordReference] at hk
    split at hk
    · obtain ⟨d, hd, rfl⟩ := Option.map_eq_some_iff.1 hk
      exact .inr ⟨d, hd, .counted rfl⟩
    · exact .inr ⟨d', hk, .kept⟩
  | complete c =>
    rw [Graph.find?_adjust] at hk
    split at hk
    · next h =>
      obtain ⟨d, hd, rfl⟩ := Option.map_eq_some_iff.1 hk
      exact .inr ⟨d, hd, .completed rfl h.symm⟩
    · exact .inr ⟨d', hk, .kept⟩
  | known | bound | check | discoverFields => exact .inr ⟨d', hk, .kept⟩

/-- What doing a task makes of an identifier that has no definition. -/
inductive Makes (w : Wiring) (g : Graph) (k : Identifier) (d : Definition) :
    Task → Graph → List Task → Prop
  | own {consumer : Option Identifier} {placed : Bool} {c : ClassDefinition} {checks : List Task}
      (eq : d = .cls c) :
      Makes w g k d (.request k consumer placed) (g.insertIfAbsent (.cls c))
        (.request k consumer placed :: checks)
  | first {consumer : Option Identifier} {placed : Bool}
      {rest : List (Identifier × Definition)} {others : List Identifier}
      (expansion : w.Expansion k d rest) (notClass : ∀ c, d ≠ .cls c)
      (fresh : ∀ j, j ∈ others ↔ j ≠ k ∧ g.find? j = none ∧ ∃ d', (j, d') ∈ rest) :
      Makes w g k d (.request k consumer placed) (g.insertAll ((k, d) :: rest)).1
        ((others ++ d.dependencies).map (fun j => .request j (some k) placed)
          ++ directTasks k consumer d ++ [.check k consumer])
  | other {id : Identifier} {consumer : Option Identifier} {placed : Bool} {d₁ : Definition}
      {rest : List (Identifier × Definition)} {others : List Identifier}
      (absent : g.find? id = none) (expansion : w.Expansion id d₁ rest)
      (notClass : ∀ c, d₁ ≠ .cls c) (hd : (k, d) ∈ rest) (asked : k ∈ others) :
      Makes w g k d (.request id consumer placed) (g.insertAll ((id, d₁) :: rest)).1
        ((others ++ d₁.dependencies).map (fun j => .request j (some id) placed)
          ++ directTasks id consumer d₁ ++ [.check id consumer])

/-- Only a request defines something, its own identifier or what comes with the expansion. -/
lemma Step.makes {g g' : Graph} {t : Task} {next : List Task} (h : w.Step g t g' next)
    {k : Identifier} {d : Definition} (absent : g.find? k = none) (hk : g'.find? k = some d) :
    w.Makes g k d t g' next := by
  cases h with
  | @own id _ _ c _ _ new =>
    have hid : (Definition.cls c).id = id := new.id_eq
    rw [Graph.find?_insertIfAbsent, hid, absent] at hk
    split at hk
    · next h =>
      subst h
      exact .own (Option.some.inj hk).symm
    · cases hk
  | @bind id _ _ d₁ rest others absent₁ expansion notClass fresh =>
    rw [Graph.find?_insertAll g expansion.keyed, absent, Option.none_or, lookup_cons] at hk
    split at hk
    · next h =>
      subst h
      cases hk
      exact .first expansion notClass fresh
    · next h =>
      have hd : (k, d) ∈ rest := mem_of_lookup hk
      exact .other absent₁ expansion notClass hd ((fresh k).2 ⟨h, absent, d, hd⟩)
  | discover | complete c =>
    rw [Graph.find?_adjust, absent] at hk
    simp at hk
  | count id consumer singleton =>
    rw [Graph.find?_recordReference, absent] at hk
    simp at hk
  | known | bound | check | discoverFields => cases absent.symm.trans hk

/-- A class that a step makes is asked for at once. -/
lemma Step.requests_new {g g' : Graph} {t : Task} {next : List Task} (h : w.Step g t g' next)
    {k : Identifier} {c : ClassDefinition} (absent : g.find? k = none)
    (hk : g'.find? k = some (.cls c)) : ∃ consumer placed, .request k consumer placed ∈ next := by
  cases h.makes absent hk with
  | own => exact ⟨_, _, List.mem_cons_self⟩
  | first _ notClass => exact absurd rfl (notClass c)
  | @other id _ placed _ _ _ _ _ _ _ asked => exact ⟨some id, placed, by simp [asked]⟩

/-- A request begins the discovery of a class, unless it has begun before. -/
lemma Step.begins {g g' : Graph} {k : Identifier} {consumer : Option Identifier} {placed : Bool}
    {next : List Task} (h : w.Step g (.request k consumer placed) g' next) (o : w.Original g)
    {c : ClassDefinition} (present : g.find? k = some (.cls c)) :
    (c.progress = .pending ∧ g'.find? k = some (.cls { c with progress := .inProgress }) ∧
      ∃ t ∈ next, ∃ found, t.class? = some found ∧ found.id = k) ∨
    (c.progress ≠ .pending ∧ g' = g) := by
  have known : ∀ {d}, g.find? k = some d → d = .cls c := fun h =>
    Option.some.inj (h.symm.trans present)
  cases h with
  | own absent | bind absent => simp [present] at absent
  | discover found hc pending same =>
    cases known hc
    have hid : c.id = k := o.id_eq present
    have hfound : found.id = c.id := (congrArg ClassDefinition.id same :)
    refine .inl ⟨pending, ?_, _, List.mem_append_right _ List.mem_cons_self, found, rfl,
      hfound.trans hid⟩
    rw [Graph.find?_adjust, if_pos hid.symm, present]
    rfl
  | known hc begun =>
    cases known hc
    exact .inr ⟨begun, rfl⟩
  | bound hd notClass => exact absurd (known hd) (notClass c)

/-- Where a task that is to complete a class comes from. -/
inductive Origin (w : Wiring) (g : Graph) (next : List Task) :
    Task → Task → ClassDefinition → Prop
  | begun {id : Identifier} {consumer : Option Identifier} {placed : Bool} {c : ClassDefinition}
      (found : ClassDefinition) (present : g.find? id = some (.cls c))
      (same : found.shape = c.shape) (described : w.DescribesArguments found)
      (requests : ∀ j ∈ found.dependencies, .request j (some found.id) placed ∈ next) :
      Origin w g next (.request id consumer placed) (.discoverFields found placed) found
  | continued {c : ClassDefinition} {placed : Bool} {fs : List Field}
      (answer : w.fieldsOf c.id = .ok fs)
      (requests : ∀ j ∈ (injectedFields c.overriddenFields fs).filterMap (·.source.dependency?),
        .request j (some c.id) placed ∈ next) :
      Origin w g next (.discoverFields c placed)
        (.complete { c with fields := injectedFields c.overriddenFields fs })
        { c with fields := injectedFields c.overriddenFields fs }

lemma Step.origin {g g' : Graph} {t t' : Task} {next : List Task} (h : w.Step g t g' next)
    (ht : t' ∈ next) {c : ClassDefinition} (hc : t'.class? = some c) : w.Origin g next t t' c := by
  cases h with
  | own absent new rechecks =>
    rcases List.mem_cons.1 ht with rfl | ht
    · cases hc
    · rw [rechecks t' ht] at hc
      cases hc
  | bind =>
    simp only [List.mem_append, List.mem_singleton] at ht
    rcases ht with (ht | ht) | rfl
    · obtain ⟨k, -, rfl⟩ := List.mem_map.1 ht
      cases hc
    · rw [class?_of_mem_directTasks ht] at hc
      cases hc
    · cases hc
  | @discover id consumer placed c₁ found present pending same described =>
    rcases List.mem_append.1 ht with ht | ht
    · rw [class?_of_mem_dependencyTasks ht] at hc
      cases hc
    · obtain rfl := List.mem_singleton.1 ht
      cases hc
      have hid : c.id = c₁.id := (congrArg ClassDefinition.id same :)
      apply Origin.begun c present same described
      intro j hj
      exact List.mem_append_left _ (hid ▸ request_mem_dependencyTasks c₁ placed hj)
  | @discoverFields c₁ placed fs answer =>
    rcases List.mem_append.1 ht with ht | ht
    · rw [class?_of_mem_dependencyTasks ht] at hc
      cases hc
    · obtain rfl := List.mem_singleton.1 ht
      cases hc
      apply Origin.continued answer
      intro j hj
      exact List.mem_append_left _ (request_mem_dependencyTasks c₁ placed hj)
  | bound =>
    obtain rfl := List.mem_singleton.1 ht
    cases hc
  | known | check | count | complete => cases ht

/-! ### The discovery of classes -/

/-- The discovery of a class has begun in a graph. -/
def HasBegun (g : Graph) (c : ClassDefinition) : Prop :=
  ∃ c', g.find? c.id = some (.cls c') ∧ c'.shape = c.shape ∧ c'.progress ≠ .pending

lemma Step.hasBegun {g g' : Graph} {t : Task} {next : List Task} (h : w.Step g t g' next)
    (o : w.Original g) {c : ClassDefinition} (b : HasBegun g c) : HasBegun g' c := by
  obtain ⟨c₀, hc, shape, begun⟩ := b
  obtain ⟨c', hc', shape'⟩ := h.keeps.find?_cls hc
  refine ⟨c', hc', shape'.trans shape, ?_⟩
  rcases h.find?_cases o hc' with ⟨absent, -⟩ | ⟨d, hd, altered⟩
  · cases hc.symm.trans absent
  · cases hc.symm.trans hd
    cases altered with
    | kept | counted => exact begun
    | begun | completed => simp

/-- How far the discovery of each class has come, and by which tasks it goes on. -/
structure Underway (w : Wiring) (g : Graph) (ts : List Task) : Prop where
  completing : ∀ t ∈ ts, ∀ c, t.class? = some c →
    HasBegun g c ∧ w.DescribesArguments c ∧ (t = .complete c → w.Describes c)
  pending : ∀ k c, g.find? k = some (.cls c) → c.progress = .pending →
    ∃ consumer placed, .request k consumer placed ∈ ts
  inProgress : ∀ k c, g.find? k = some (.cls c) → c.progress = .inProgress →
    ∃ t ∈ ts, ∃ c', t.class? = some c' ∧ c'.id = k
  resolved : ∀ k c, g.find? k = some (.cls c) → c.progress = .resolved → w.Describes c

lemma underway_start (w : Wiring) (roots : List Identifier) :
    w.Underway (w.start roots) (roots.map w.rootTask) := by
  constructor
  · intro t ht c hc
    obtain ⟨r, -, rfl⟩ := List.mem_map.1 ht
    cases hc
  all_goals
    intro k c hk
    exact absurd hk (find?_start_ne_cls w roots k c)

lemma Underway.completing_next {g g' : Graph} {t : Task} {rest next : List Task}
    (u : w.Underway g (t :: rest)) (o : w.Original g) (h : w.Step g t g' next) {t' : Task}
    (ht : t' ∈ next) {c : ClassDefinition} (hc : t'.class? = some c) :
    HasBegun g' c ∧ w.DescribesArguments c ∧ (t' = .complete c → w.Describes c) := by
  cases h.origin ht hc with
  | @begun id _ _ c₁ _ present same described =>
    have hid : c.id = id := (congrArg ClassDefinition.id same :).trans (o.id_eq present)
    refine ⟨?_, described, by simp⟩
    rcases h.begins o present with ⟨-, present', -⟩ | ⟨begun, rfl⟩
    · exact ⟨{ c₁ with progress := .inProgress }, hid ▸ present', same.symm, by simp⟩
    · exact ⟨c₁, hid ▸ present, same.symm, begun⟩
  | @continued c₁ _ fs answer =>
    obtain ⟨begun, ⟨source, arguments⟩, -⟩ := u.completing _ List.mem_cons_self c₁ rfl
    exact ⟨h.hasBegun o begun, ⟨source, arguments⟩,
      fun _ => ⟨⟨source, arguments⟩, fs, answer, rfl⟩⟩

/-- A class is described by the provider if that is all it was completed with. -/
lemma Describes.completed {c found : ClassDefinition} (d : w.Describes found)
    (same : found.shape = c.shape) :
    w.Describes { c with
      arguments := found.arguments, fields := found.fields, sourceUnit := found.sourceUnit
      progress := .resolved } := by
  have hid : found.id = c.id := (congrArg ClassDefinition.id same :)
  have hp : found.overriddenParameters = c.overriddenParameters :=
    (congrArg ClassDefinition.overriddenParameters same :)
  have hf : found.overriddenFields = c.overriddenFields :=
    (congrArg ClassDefinition.overriddenFields same :)
  obtain ⟨⟨source, ps, hps, args⟩, fs, hfs, fields⟩ := d
  rw [hid] at source hps hfs
  exact ⟨⟨source, ps, hps, hp ▸ args⟩, fs, hfs, hf ▸ fields⟩

lemma Underway.pending_next {g g' : Graph} {t : Task} {rest next : List Task}
    (u : w.Underway g (t :: rest)) (o : w.Original g) (h : w.Step g t g' next) (k : Identifier)
    (c' : ClassDefinition) (hk : g'.find? k = some (.cls c')) (pending : c'.progress = .pending) :
    ∃ consumer placed, .request k consumer placed ∈ next ++ rest := by
  rcases h.find?_cases o hk with ⟨absent, -⟩ | ⟨d, hd, altered⟩
  · obtain ⟨consumer, placed, hmem⟩ := h.requests_new absent hk
    exact ⟨consumer, placed, List.mem_append_left rest hmem⟩
  obtain ⟨c, rfl, -⟩ := h.keeps.exists_cls hd hk
  -- no step makes a class pending again
  have before : c.progress = .pending := by
    cases altered with
    | kept => exact pending
    | begun => cases pending
    | counted => exact pending
    | completed => cases pending
  obtain ⟨consumer, placed, hmem⟩ := u.pending k c hd before
  rcases List.mem_cons.1 hmem with rfl | hmem
  · rcases h.begins o hd with ⟨-, hk', -⟩ | ⟨begun, -⟩
    · cases hk.symm.trans hk'
      cases pending
    · exact absurd before begun
  · exact ⟨consumer, placed, List.mem_append_right next hmem⟩

/-- A task that is to complete a class does so, or another one is left that will. -/
lemma Step.completes {g g' : Graph} {t : Task} {next : List Task} (h : w.Step g t g' next)
    {c : ClassDefinition} (hc : t.class? = some c) :
    (∃ t' ∈ next, ∃ c', t'.class? = some c' ∧ c'.id = c.id) ∨
      ∀ k c', k = c.id → g'.find? k = some (.cls c') → c'.progress = .resolved := by
  cases h with
  | @discoverFields c₁ placed fs answer =>
    obtain rfl : c₁ = c := Option.some.inj hc
    exact .inl ⟨_, List.mem_append_right _ List.mem_cons_self, _, rfl, rfl⟩
  | complete c₁ =>
    obtain rfl : c₁ = c := Option.some.inj hc
    right
    intro k c' hid hk
    rw [Graph.find?_adjust, if_pos hid] at hk
    obtain ⟨d, -, hd⟩ := Option.map_eq_some_iff.1 hk
    cases d with
    | cls c => cases hd; rfl
    | _ => cases hd
  | own | bind | discover | known | bound | check | count => cases hc

lemma Underway.inProgress_next {g g' : Graph} {t : Task} {rest next : List Task}
    (u : w.Underway g (t :: rest)) (o : w.Original g) (h : w.Step g t g' next) (k : Identifier)
    (c' : ClassDefinition) (hk : g'.find? k = some (.cls c')) (begun : c'.progress = .inProgress) :
    ∃ t' ∈ next ++ rest, ∃ c, t'.class? = some c ∧ c.id = k := by
  rcases h.find?_cases o hk with ⟨-, new⟩ | ⟨d, hd, altered⟩
  · rw [← new.shape_cls] at begun
    cases begun
  obtain ⟨c, rfl, -⟩ := h.keeps.exists_cls hd hk
  -- the discovery has begun before, or by this very step
  have before : c.progress = .inProgress ∨
      c.progress = .pending ∧ ∃ consumer placed, t = .request k consumer placed := by
    cases altered with
    | kept => exact .inl begun
    | begun discover pending eq =>
      cases eq
      exact .inr ⟨pending, _, _, discover⟩
    | counted => exact .inl begun
    | completed => cases begun
  rcases before with before | ⟨pending, consumer, placed, rfl⟩
  -- the task that was to complete the class may be the one that is done now
  · obtain ⟨t', ht, c₁, hc, hid⟩ := u.inProgress k c hd before
    rcases List.mem_cons.1 ht with rfl | ht
    · rcases h.completes hc with ⟨t₂, ht, c₂, hc₂, hid₂⟩ | resolved
      · exact ⟨t₂, List.mem_append_left rest ht, c₂, hc₂, hid₂.trans hid⟩
      · exact absurd (resolved k c' hid.symm hk) (by simp [begun])
    · exact ⟨t', List.mem_append_right next ht, c₁, hc, hid⟩
  · rcases h.begins o hd with ⟨-, -, t', ht, found, hc, hid⟩ | ⟨begun, -⟩
    · exact ⟨t', List.mem_append_left rest ht, found, hc, hid⟩
    · exact absurd pending begun

lemma Step.underway {g g' : Graph} {t : Task} {rest next : List Task} (h : w.Step g t g' next)
    (o : w.Original g) (u : w.Underway g (t :: rest)) : w.Underway g' (next ++ rest) where
  completing t' ht c hc := by
    rcases List.mem_append.1 ht with ht | ht
    · exact u.completing_next o h ht hc
    · obtain ⟨begun, described⟩ := u.completing t' (List.mem_cons_of_mem t ht) c hc
      exact ⟨h.hasBegun o begun, described⟩
  pending := u.pending_next o h
  inProgress := u.inProgress_next o h
  resolved k c' hk resolved := by
    rcases h.find?_cases o hk with ⟨-, new⟩ | ⟨d, hd, altered⟩
    · rw [← new.shape_cls] at resolved
      cases resolved
    obtain ⟨c, rfl, same⟩ := h.keeps.exists_cls hd hk
    cases altered with
    | kept => exact u.resolved k c' hd resolved
    | begun => cases resolved
    | counted =>
      obtain ⟨⟨source, arguments⟩, fields⟩ := u.resolved k c hd resolved
      exact ⟨⟨source, arguments⟩, fields⟩
    | @completed found complete hid =>
      subst complete
      obtain ⟨⟨c₁, hc₁, shape, -⟩, -, described⟩ := u.completing _ List.mem_cons_self found rfl
      rw [hid, hd] at hc₁
      cases hc₁
      exact (described rfl).completed shape.symm

lemma underway_of_visits {g h : Graph} {us : List Task} (ok : w.Yields roots g)
    (v : w.Visits roots h us) : w.Underway h us :=
  Leads.invariant ok (P := w.Underway) (underway_start w roots)
    (fun before _ u step => step.underway (original_of_visits ok before) u) v

/-- In the end every class is as the provider describes it. -/
theorem Yields.describes {g : Graph} (ok : w.Yields roots g) {k : Identifier}
    {c : ClassDefinition} (hk : g.find? k = some (.cls c)) :
    c.progress = .resolved ∧ w.Describes c := by
  have u := underway_of_visits ok ok.visits
  cases hp : c.progress with
  | pending =>
    obtain ⟨consumer, placed, hmem⟩ := u.pending k c hk hp
    cases hmem
  | inProgress =>
    obtain ⟨t, ht, -⟩ := u.inProgress k c hk hp
    cases ht
  | resolved => exact ⟨rfl, u.resolved k c hk hp⟩

end Injector.Wiring
