import Injector.Proofs.Graph.Insertion
import Injector.Proofs.Hint.Expansion

/-!
# How definitions are made

Resolution makes a definition when its identifier is first asked for, from a hint or as a class of
its own. What all of these have in common: the definition is exposed exactly if its identifier is
declared, nothing is filled in, and it hands out no container. What a hint makes besides are classes
that the first definition names.
-/

namespace Injector

namespace Definition

/-- A class, an alias of something else than the container, or branches that are such aliases. -/
inductive IsPlain : Definition → Prop
  | cls (c : ClassDefinition) : IsPlain (.cls c)
  | forwarding {a : Alias} (h : a.isContainer = false) : IsPlain (.alias a)
  | branching {id : Identifier} {scope : Scope} {entryPoint : Bool} {default : Option Definition}
      {branches : List (Identifier × Definition)}
      (h : ∀ b, default = some b ∨ (∃ k, (k, b) ∈ branches) →
        ∃ a : Alias, b = .alias a ∧ a.isContainer = false) :
      IsPlain (.perConsumer id scope entryPoint default branches)

lemma mem_clearBranches {branches : List (Identifier × Definition)} {k : Identifier}
    {d : Definition} :
    (k, d) ∈ clearBranches branches ↔ ∃ e, (k, e) ∈ branches ∧ e.clearPlacement = d := by
  induction branches with
  | nil => simp [clearBranches]
  | cons b rest ih =>
    obtain ⟨j, e⟩ := b
    simp only [clearBranches, List.mem_cons, Prod.mk.injEq, ih]
    constructor
    · rintro (⟨rfl, rfl⟩ | ⟨e', h, rfl⟩)
      · exact ⟨e, .inl ⟨rfl, rfl⟩, rfl⟩
      · exact ⟨e', .inr h, rfl⟩
    · rintro ⟨e', ⟨rfl, rfl⟩ | h, rfl⟩
      · exact .inl ⟨rfl, rfl⟩
      · exact .inr ⟨e', h, rfl⟩

@[simp] lemma isEntryPoint_clearPlacement (d : Definition) :
    d.clearPlacement.isEntryPoint = d.isEntryPoint := by
  induction d using Definition.id.induct <;> simp_all [clearPlacement, isEntryPoint]

lemma shape_clearPlacement (d : Definition) : d.clearPlacement.shape = d.shape.clearPlacement := by
  induction d using Definition.id.induct <;>
    simp_all [clearPlacement, shape, ClassDefinition.shape]

mutual

/-- Placement is no matter of dependencies. -/
lemma namedDependencies_clearPlacement (d : Definition) :
    d.clearPlacement.namedDependencies = d.namedDependencies := by
  match d with
  | .cls c => rfl
  | .alias a => rfl
  | .container id => rfl
  | .perConsumer id scope entryPoint default branches =>
    simp only [clearPlacement, namedDependencies]
    rw [branchDependencies_clearBranches branches, defaultDependencies_clearDefault default]
  | .autoloaded inner fileBased always =>
    simp only [clearPlacement, namedDependencies]
    exact namedDependencies_clearPlacement inner

lemma branchDependencies_clearBranches (branches : List (Identifier × Definition)) :
    branchDependencies (clearBranches branches) = branchDependencies branches := by
  match branches with
  | [] => rfl
  | (k, d) :: rest =>
    simp only [clearBranches, branchDependencies]
    rw [namedDependencies_clearPlacement d, branchDependencies_clearBranches rest]

lemma defaultDependencies_clearDefault (default : Option Definition) :
    defaultDependencies (clearDefault default) = defaultDependencies default := by
  match default with
  | none => rfl
  | some d => exact namedDependencies_clearPlacement d

end

lemma IsPlain.clearPlacement {d : Definition} (h : d.IsPlain) : d.clearPlacement.IsPlain := by
  cases h with
  | cls c => exact .cls _
  | forwarding h => exact .forwarding h
  | @branching _ _ _ default branches h =>
    apply IsPlain.branching
    intro b hb
    have hb : ∃ e, (default = some e ∨ ∃ k, (k, e) ∈ branches) ∧ e.clearPlacement = b := by
      rcases hb with hb | ⟨k, hb⟩
      · cases default with
        | none => simp [clearDefault] at hb
        | some e => exact ⟨e, .inl rfl, by simpa [clearDefault] using hb⟩
      · obtain ⟨e, he, rfl⟩ := mem_clearBranches.1 hb
        exact ⟨e, .inr ⟨k, he⟩, rfl⟩
    obtain ⟨e, he, rfl⟩ := hb
    obtain ⟨a, rfl, ha⟩ := h e he
    exact ⟨_, rfl, ha⟩

lemma mem_of_branchFor? {default : Option Definition} {branches : List (Identifier × Definition)}
    {consumer : Option Identifier} {b : Definition}
    (h : branchFor? default branches consumer = some b) :
    default = some b ∨ ∃ k, (k, b) ∈ branches := by
  rcases Option.or_eq_some_iff.1 h with h | ⟨-, h⟩
  · obtain ⟨c, -, h⟩ := Option.bind_eq_some_iff.1 h
    exact .inr ⟨c, mem_of_lookup h⟩
  · exact .inl h

/-- The branch of a consumer is an alias of something that is named. -/
lemma IsPlain.exists_of_branchFor? {id : Identifier} {scope : Scope} {entryPoint : Bool}
    {default : Option Definition} {branches : List (Identifier × Definition)}
    (h : (Definition.perConsumer id scope entryPoint default branches).IsPlain)
    {consumer : Option Identifier} {b : Definition}
    (hb : branchFor? default branches consumer = some b) :
    ∃ a : Alias, b = .alias a ∧ a.isContainer = false ∧
      a.target ∈ (Definition.perConsumer id scope entryPoint default branches).namedDependencies := by
  cases h with
  | branching h =>
    have hmem := mem_of_branchFor? hb
    obtain ⟨a, rfl, ha⟩ := h b hmem
    have hn : a.target ∈ (Definition.alias a).namedDependencies := by
      simp [namedDependencies, ha]
    refine ⟨a, rfl, ha, ?_⟩
    simp only [namedDependencies, List.mem_append, mem_branchDependencies,
      mem_defaultDependencies]
    rcases hmem with hb | ⟨k, hb⟩
    · exact .inr ⟨_, hb, hn⟩
    · exact .inl ⟨_, hb, hn⟩

/-- A plain definition forwards to what it names. -/
lemma IsPlain.mem_namedDependencies {d : Definition} (h : d.IsPlain) {consumer next : Identifier}
    (hf : d.forward? consumer = some next) : next ∈ d.namedDependencies := by
  cases d with
  | «alias» a => simp_all [forward?, aliasTarget?, namedDependencies]
  | perConsumer id scope entryPoint default branches =>
    obtain ⟨b, hb, ht⟩ := Option.bind_eq_some_iff.1 hf
    obtain ⟨a, rfl, ha, named⟩ := h.exists_of_branchFor? hb
    obtain rfl : a.target = next := by simpa [aliasTarget?, ha] using ht
    exact named
  | cls | container | autoloaded => cases hf

end Definition

namespace Wiring

variable {w : Wiring}

/-! ### New definitions -/

/-- What every definition is like when resolution makes it for an identifier. -/
structure Newborn (w : Wiring) (k : Identifier) (d : Definition) : Prop where
  /-- It is called by the identifier. -/
  id_eq : d.id = k
  /-- Nothing is filled in. -/
  shape_eq : d.shape = d
  /-- It is exposed if the identifier is declared. -/
  exposed : d.isEntryPoint = w.entries.contains k
  /-- It hands out no container and is no proxy. -/
  plain : d.IsPlain

lemma Newborn.clearPlacement {k : Identifier} {d : Definition} (h : w.Newborn k d) :
    w.Newborn k d.clearPlacement where
  id_eq := by rw [Definition.id_clearPlacement, h.id_eq]
  shape_eq := by rw [Definition.shape_clearPlacement, h.shape_eq]
  exposed := by rw [Definition.isEntryPoint_clearPlacement, h.exposed]
  plain := h.plain.clearPlacement

lemma newborn_classDefinition (w : Wiring) (cls : Identifier) (s : ClassSettings)
    (placed : Bool) : w.Newborn cls (.cls (classDefinition w.entries cls s placed)) := by
  have exposed : (w.entries.find? cls).isSome = w.entries.contains cls := rfl
  cases h : w.entries.find? cls <;> rw [h] at exposed <;> simp only [classDefinition, h]
  · exact ⟨rfl, rfl, exposed, .cls _⟩
  · exact ⟨rfl, rfl, exposed, .cls _⟩

/-- A class that stays in the main file is a class made for it. -/
lemma clearPlacement_classDefinition (entries : EntryPoints) (cls : Identifier) (s : ClassSettings)
    (placed : Bool) : (Definition.cls (classDefinition entries cls s placed)).clearPlacement =
      .cls (classDefinition entries cls s false) := by
  simp only [Definition.clearPlacement, classDefinition]
  cases entries.find? cls <;> rfl

lemma Newborn.shape_cls {k : Identifier} {c : ClassDefinition} (h : w.Newborn k (.cls c)) :
    c.shape = c := by
  simpa [Definition.shape] using h.shape_eq

/-- A new class names nothing yet. -/
lemma Newborn.namedDependencies_cls {k : Identifier} {c : ClassDefinition}
    (h : w.Newborn k (.cls c)) : (Definition.cls c).namedDependencies = [] := by
  rw [← h.shape_eq]
  rfl

/-! ### Definitions from hints -/

lemma of_implementation? {cls : Identifier} {s : ClassSettings} {placed : Bool}
    {e : Identifier × Definition} (h : implementation? w.entries w.hints cls s placed = some e) :
    e.1 = cls ∧ w.Newborn e.1 e.2 ∧ ∃ c, e.2 = .cls c := by
  obtain ⟨-, s', rfl⟩ := exists_of_implementation? h
  exact ⟨rfl, newborn_classDefinition w cls s' placed, _, rfl⟩

/-- The definitions that take the place of an identifier: its own, and besides it classes that it
names. A named identifier that is not among them has a hint of its own. -/
structure Expansion (w : Wiring) (id : Identifier) (d : Definition)
    (rest : List (Identifier × Definition)) : Prop where
  /-- The identifier is defined first. -/
  first : w.Newborn id d
  /-- The others are made for their identifiers. -/
  others : ∀ e ∈ rest, w.Newborn e.1 e.2
  /-- The others are classes. -/
  classes : ∀ e ∈ rest, ∃ c, e.2 = .cls c
  /-- The others are named by the first one. -/
  named : ∀ e ∈ rest, e.1 ∈ d.namedDependencies
  /-- What is named is defined too, unless another hint takes it elsewhere. -/
  complete : ∀ k ∈ d.namedDependencies, w.hints.leavesAlone k → ∃ e ∈ rest, e.1 = k
  /-- Branches come from a hint for the very identifier. -/
  context : ∀ i s x default branches, d = .perConsumer i s x default branches →
    ∃ t, w.hints.exact.find? id = some (.perConsumer t) ∧
      ∀ k ∈ d.namedDependencies, k ∈ t.classes

lemma expansion_classBinding (w : Wiring) (id cls : Identifier) (s : ClassSettings)
    (placed : Bool) :
    ∃ d rest, classBinding w.entries w.hints id cls s placed = (id, d) :: rest ∧
      w.Expansion id d rest := by
  simp only [classBinding]
  split
  · have first := newborn_classDefinition w id s placed
    refine ⟨_, [], rfl, first, ?_, ?_, ?_, ?_, ?_⟩
    · simp
    · simp
    · simp
    · simp [first.namedDependencies_cls]
    · rintro i s x default branches ⟨⟩
  · refine ⟨_, _, rfl, ⟨rfl, rfl, rfl, .forwarding rfl⟩, ?_, ?_, ?_, ?_, ?_⟩
    · intro e he
      exact (of_implementation? (Option.mem_toList.1 he)).2.1
    · intro e he
      exact (of_implementation? (Option.mem_toList.1 he)).2.2
    · intro e he
      rw [(of_implementation? (Option.mem_toList.1 he)).1]
      simp [Definition.namedDependencies]
    · intro k hk hl
      obtain rfl : k = cls := by simpa [Definition.namedDependencies] using hk
      rw [← isSome_implementation? w.entries w.hints k s placed] at hl
      obtain ⟨e, he⟩ := Option.isSome_iff_exists.1 hl
      exact ⟨e, Option.mem_toList.2 he, (of_implementation? he).1⟩
    · rintro i s x default branches ⟨⟩

lemma expansion_contextBinding {w : Wiring} {id : Identifier} {t : ContextTable} (placed : Bool)
    (found : w.hints.exact.find? id = some (.perConsumer t)) :
    ∃ d rest, contextBinding w.entries w.hints id t placed = (id, d) :: rest ∧
      w.Expansion id d rest := by
  have classes : ∀ {e}, e ∈ t.classes.filterMap (fun cls =>
      implementation? w.entries w.hints cls { scope := t.scope } placed) →
      ∃ cls ∈ t.classes, implementation? w.entries w.hints cls { scope := t.scope } placed
        = some e := by
    intro e he
    simpa using he
  refine ⟨_, _, rfl, ⟨rfl, rfl, rfl, .branching ?_⟩, ?_, ?_, ?_, ?_, ?_⟩
  · rintro b (hb | ⟨k, hb⟩)
    · obtain ⟨cls, -, rfl⟩ := Option.map_eq_some_iff.1 hb
      exact ⟨_, rfl, rfl⟩
    · obtain ⟨e, -, he⟩ := List.mem_map.1 hb
      cases he
      exact ⟨_, rfl, rfl⟩
  · intro e he
    obtain ⟨cls, -, hi⟩ := classes he
    exact (of_implementation? hi).2.1
  · intro e he
    obtain ⟨cls, -, hi⟩ := classes he
    exact (of_implementation? hi).2.2
  · intro e he
    obtain ⟨cls, hc, hi⟩ := classes he
    rw [(of_implementation? hi).1]
    exact mem_namedDependencies_context.2 hc
  -- a class is left out exactly if a hint of its own takes it elsewhere
  · intro k hk hl
    rw [← isSome_implementation? w.entries w.hints k { scope := t.scope } placed] at hl
    obtain ⟨e, he⟩ := Option.isSome_iff_exists.1 hl
    exact ⟨e, List.mem_filterMap.2 ⟨k, mem_namedDependencies_context.1 hk, he⟩,
      (of_implementation? he).1⟩
  · rintro _ _ _ _ _ -
    exact ⟨t, found, fun k hk => mem_namedDependencies_context.1 hk⟩

/-- A hint expands the identifiers that it is for. -/
lemma expansion_definitions {w : Wiring} {id : Identifier} {placed : Bool} {hint : Hint}
    {ds : List (Identifier × Definition)} (found : w.hints.find? id = some hint)
    (h : hint.definitions w.entries w.hints id placed = .ok ds) :
    ∃ d rest, ds = (id, d) :: rest ∧ w.Expansion id d rest := by
  cases hint with
  | exact binding =>
    cases binding with
    | byClass cls s =>
      cases h
      exact expansion_classBinding w id cls s placed
    | perConsumer t =>
      cases h
      exact expansion_contextBinding placed (HintTable.find?_exact_of_find? found)
  | wildcard hint =>
    simp only [Hint.definitions] at h
    split at h
    · cases h
      exact expansion_classBinding w id _ _ placed
    · cases h

/-- Keep definitions in the main file whose identifiers stay there. -/
def inlined (w : Wiring) (ds : List (Identifier × Definition)) : List (Identifier × Definition) :=
  ds.map fun e => (e.1, if w.config.staysInline e.1 then e.2.clearPlacement else e.2)

lemma mem_inlined {ds : List (Identifier × Definition)} {e : Identifier × Definition}
    (h : e ∈ w.inlined ds) : ∃ d, (e.1, d) ∈ ds ∧ (e.2 = d ∨ e.2 = d.clearPlacement) := by
  obtain ⟨⟨k, d⟩, hd, rfl⟩ := List.mem_map.1 h
  refine ⟨d, hd, ?_⟩
  by_cases hk : w.config.staysInline k <;> simp [hk]

/-- Whether definitions stay in the main file is no matter of what they are. -/
lemma Expansion.inlined {id : Identifier} {d : Definition} {rest : List (Identifier × Definition)}
    (h : w.Expansion id d rest) :
    ∃ d', w.inlined ((id, d) :: rest) = (id, d') :: w.inlined rest ∧
      w.Expansion id d' (w.inlined rest) := by
  refine ⟨if w.config.staysInline id then d.clearPlacement else d, rfl, ?_⟩
  have names : (if w.config.staysInline id then d.clearPlacement else d).namedDependencies =
      d.namedDependencies := by
    split
    · exact Definition.namedDependencies_clearPlacement d
    · rfl
  constructor
  · split
    · exact h.first.clearPlacement
    · exact h.first
  · intro e he
    obtain ⟨d', hd, hk | hk⟩ := mem_inlined he
    · exact hk ▸ h.others _ hd
    · exact hk ▸ (h.others _ hd).clearPlacement
  · intro e he
    obtain ⟨d', hd, hk⟩ := mem_inlined he
    obtain ⟨c, rfl⟩ : ∃ c, d' = .cls c := h.classes _ hd
    rcases hk with hk | hk
    · exact ⟨c, hk⟩
    · exact ⟨_, hk⟩
  · intro e he
    obtain ⟨d', hd, -⟩ := mem_inlined he
    rw [names]
    exact h.named (e.1, d') hd
  · intro k hk hl
    obtain ⟨e, he, rfl⟩ := h.complete k (names ▸ hk) hl
    exact ⟨_, List.mem_map.2 ⟨e, he, rfl⟩, rfl⟩
  · intro i s x default branches hd
    rw [names]
    split at hd
    · cases d with
      | perConsumer => exact h.context _ _ _ _ _ rfl
      | _ => simp [Definition.clearPlacement] at hd
    · exact h.context _ _ _ _ _ hd

lemma Expansion.keyed {id : Identifier} {d : Definition} {rest : List (Identifier × Definition)}
    (h : w.Expansion id d rest) : ∀ e ∈ (id, d) :: rest, e.2.id = e.1 := by
  intro e he
  rcases List.mem_cons.1 he with rfl | he
  · exact h.first.id_eq
  · exact (h.others e he).id_eq

lemma Expansion.newborn {id : Identifier} {d : Definition}
    {rest : List (Identifier × Definition)} (h : w.Expansion id d rest)
    {e : Identifier × Definition} (he : e ∈ (id, d) :: rest) : w.Newborn e.1 e.2 := by
  rcases List.mem_cons.1 he with rfl | he
  · exact h.first
  · exact h.others e he

/-- An identifier is defined as what its expansion says. -/
lemma Expansion.find?_first {g : Graph} {id : Identifier} {d : Definition}
    {rest : List (Identifier × Definition)} (h : w.Expansion id d rest)
    (absent : g.find? id = none) : (g.insertAll ((id, d) :: rest)).1.find? id = some d := by
  rw [Graph.find?_insertAll g h.keyed, absent]
  simp

/-! ### What a hint names -/

/-- A hint names nothing but its targets, and defines none that another hint takes elsewhere. -/
lemma targets_of_definitions {id : Identifier} {placed : Bool} {hint : Hint}
    {first : Identifier × Definition} {rest : List (Identifier × Definition)}
    (h : hint.definitions w.entries w.hints id placed = .ok (first :: rest)) :
    (∀ k ∈ first.2.namedDependencies, k ∈ hint.targets id) ∧
      ∀ e ∈ rest, w.hints.leavesAlone e.1 := by
  have alone : ∀ {cls s e}, implementation? w.entries w.hints cls s placed = some e →
      w.hints.leavesAlone e.1 := by
    intro cls s e he
    obtain ⟨alone, s', rfl⟩ := exists_of_implementation? he
    exact alone
  have byClass : ∀ {cls s}, classBinding w.entries w.hints id cls s placed = first :: rest →
      (∀ k ∈ first.2.namedDependencies, k = cls) ∧ ∀ e ∈ rest, w.hints.leavesAlone e.1 := by
    intro cls s eq
    simp only [classBinding] at eq
    split at eq
    · cases eq
      simp [(newborn_classDefinition w id s placed).namedDependencies_cls]
    · cases eq
      exact ⟨fun k hk => by simpa [Definition.namedDependencies] using hk,
        fun e he => alone (Option.mem_toList.1 he)⟩
  cases hint with
  | exact binding =>
    cases binding with
    | byClass cls s =>
      obtain ⟨named, others⟩ := byClass (Except.ok.inj h)
      exact ⟨fun k hk => List.mem_singleton.2 (named k hk), others⟩
    | perConsumer t =>
      cases h
      refine ⟨fun k hk => mem_namedDependencies_context.1 hk, fun e he => ?_⟩
      obtain ⟨cls, -, hi⟩ := List.mem_filterMap.1 he
      exact alone hi
  | wildcard hint =>
    simp only [Hint.definitions] at h
    split at h
    · next cls target =>
      obtain ⟨named, others⟩ := byClass (Except.ok.inj h)
      exact ⟨fun k hk => by rw [named k hk]; simp [Hint.targets, target], others⟩
    · cases h

/-- The expansion of an identifier by the hint for it. -/
structure Unfolds (w : Wiring) (hint : Hint) (id : Identifier) (d : Definition)
    (rest : List (Identifier × Definition)) : Prop extends w.Expansion id d rest where
  found : w.hints.find? id = some hint
  /-- It names nothing but the targets of the hint. -/
  targets : ∀ k ∈ d.namedDependencies, k ∈ hint.targets id
  /-- No hint takes what it makes besides elsewhere. -/
  alone : ∀ e ∈ rest, w.hints.leavesAlone e.1

/-- A hint unfolds the identifiers that it is for, whatever stays in the main file. -/
lemma unfolds_definitions {id : Identifier} {placed : Bool} {hint : Hint}
    {ds : List (Identifier × Definition)} (found : w.hints.find? id = some hint)
    (h : hint.definitions w.entries w.hints id placed = .ok ds) :
    ∃ d rest, w.inlined ds = (id, d) :: rest ∧ w.Unfolds hint id d rest := by
  obtain ⟨d, rest, rfl, expansion⟩ := expansion_definitions found h
  obtain ⟨named, alone⟩ := targets_of_definitions h
  obtain ⟨d', eq, expansion'⟩ := expansion.inlined
  refine ⟨d', w.inlined rest, eq, expansion', found, fun k hk => named k ?_, fun e he => ?_⟩
  · rw [inlined, List.map_cons] at eq
    obtain rfl := (Prod.ext_iff.1 (List.cons.inj eq).1).2
    dsimp only at hk
    split at hk
    · rwa [Definition.namedDependencies_clearPlacement] at hk
    · exact hk
  · obtain ⟨d₁, hd₁, -⟩ := mem_inlined he
    exact alone (e.1, d₁) hd₁

/-! ### The graph that resolution begins with -/

/-- At first there are the container and its interfaces. -/
lemma find?_seed (c : Config) (k : Identifier) :
    (seed c).find? k =
      if k = c.container.name then some (.container c.container.name)
      else if k ∈ c.container.interfaces then
        some (.alias { id := k, target := c.container.name, isContainer := true })
      else none := by
  -- an interface that has the name of the container is not inserted again
  have fold : ∀ (ks : List Identifier) (g : Graph),
      (ks.foldl (fun g id => g.insertIfAbsent
        (.alias { id, target := c.container.name, isContainer := true })) g).find? k =
        (g.find? k).or (if k ∈ ks then
          some (.alias { id := k, target := c.container.name, isContainer := true }) else none) := by
    intro ks
    induction ks with
    | nil => simp
    | cons j ks ih =>
      intro g
      rw [List.foldl_cons, ih, Graph.find?_insertIfAbsent]
      by_cases hk : k = j
      · subst hk
        cases h : g.find? k <;> simp [Definition.id]
      · simp [Definition.id, hk]
  rw [seed, fold, Graph.find?_insertIfAbsent]
  by_cases hk : k = c.container.name
  · simp [hk, Definition.id, Graph.find?]
  · simp [hk, Definition.id, Graph.find?]

end Wiring

end Injector
