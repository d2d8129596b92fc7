import Injector.Proofs.Resolution.Newborn
import Injector.Proofs.Resolution.Run

/-!
# Steps

What doing one task can be, in a run that succeeds. There are as many cases as there are things
that a resolution does; everything that is proved of a run is proved once for each of them.
-/

namespace Injector

/-! ### The tasks of members -/

/-- The tasks for the dependencies of a class. -/
def dependencyTasks (c : ClassDefinition) (placed : Bool) (js : List Identifier) : List Task :=
  js.flatMap fun j => [.request j (some c.id) placed, .count j c.id c.scope.isSingleton]

lemma dependencyTasks_append (c : ClassDefinition) (placed : Bool) (js ks : List Identifier) :
    dependencyTasks c placed (js ++ ks) =
      dependencyTasks c placed js ++ dependencyTasks c placed ks :=
  List.flatMap_append

lemma mem_dependencyTasks {c : ClassDefinition} {placed : Bool} {js : List Identifier} {t : Task} :
    t ∈ dependencyTasks c placed js ↔
      ∃ j ∈ js, t = .request j (some c.id) placed ∨ t = .count j c.id c.scope.isSingleton := by
  simp [dependencyTasks]

lemma request_mem_dependencyTasks (c : ClassDefinition) (placed : Bool) {js : List Identifier}
    {j : Identifier} (hj : j ∈ js) :
    .request j (some c.id) placed ∈ dependencyTasks c placed js :=
  mem_dependencyTasks.2 ⟨j, hj, .inl rfl⟩

/-- The class that a task is to complete. -/
def Task.class? : Task → Option ClassDefinition
  | .discoverFields c _ => some c
  | .complete c => some c
  | _ => none

/-- The identifier that a task is about. -/
def Task.subject? : Task → Option Identifier
  | .request id .. => some id
  | .discoverFields c _ | .complete c => some c.id
  | _ => none

/-- Whether a task lets what it asks for go to files of its own, if it asks for anything. -/
def Task.placed? : Task → Option Bool
  | .request _ _ placed => some placed
  | .discoverFields _ placed => some placed
  | _ => none

lemma class?_of_mem_dependencyTasks {c : ClassDefinition} {placed : Bool} {js : List Identifier}
    {t : Task} (h : t ∈ dependencyTasks c placed js) : t.class? = none := by
  obtain ⟨j, -, rfl | rfl⟩ := mem_dependencyTasks.1 h <;> rfl

lemma class?_of_mem_memberTasks {c : ClassDefinition} {kind : MemberKind} {placed : Bool}
    {name : String} {source : Option Source} {t : Task}
    (h : t ∈ memberTasks c kind placed name source) : t.class? = none := by
  simp only [memberTasks] at h
  split at h
  · rcases List.mem_pair.1 h with rfl | rfl <;> rfl
  · cases h
  · rw [List.mem_singleton.1 h]
    rfl

lemma class?_of_mem_overrideTasks {c : ClassDefinition} {kind : MemberKind}
    {overrides : Overrides} {names : List String} {t : Task}
    (h : t ∈ overrideTasks c kind overrides names) : t.class? = none := by
  simp only [overrideTasks] at h
  split at h
  · cases h
  · rw [List.mem_singleton.1 h]
    rfl

lemma class?_of_mem_parameterTasks {c : ClassDefinition} {placed : Bool}
    {ps : List Parameter} {t : Task} (h : t ∈ parameterTasks c placed ps) : t.class? = none := by
  rcases List.mem_append.1 h with h | h
  · obtain ⟨p, -, h⟩ := List.mem_flatMap.1 h
    exact class?_of_mem_memberTasks h
  · exact class?_of_mem_overrideTasks h

lemma class?_of_mem_fieldTasks {c : ClassDefinition} {placed : Bool} {fs : List Field}
    {t : Task} (h : t ∈ fieldTasks c placed fs) : t.class? = none := by
  rcases List.mem_append.1 h with h | h
  · obtain ⟨f, -, h⟩ := List.mem_flatMap.1 h
    simp only [fieldTask] at h
    split at h
    · split at h
      · rw [List.mem_singleton.1 h]
        rfl
      · exact class?_of_mem_memberTasks h
    · cases h
  · exact class?_of_mem_overrideTasks h

/-- Unless resolution gives up, a member has a source, and its dependency is asked for. -/
lemma memberTasks_eq {c : ClassDefinition} {kind : MemberKind} {placed : Bool} {name : String}
    {source : Option Source} (clean : ∀ e, .fail e ∉ memberTasks c kind placed name source) :
    ∃ s, source = some s ∧
      memberTasks c kind placed name source = dependencyTasks c placed s.dependency?.toList := by
  cases source with
  | none => exact absurd List.mem_cons_self (clean (.unresolvable c.id kind name))
  | some s => cases s <;> exact ⟨_, rfl, rfl⟩

lemma overrideTasks_eq_nil {c : ClassDefinition} {kind : MemberKind} {overrides : Overrides}
    {names : List String} (clean : ∀ e, .fail e ∉ overrideTasks c kind overrides names) :
    overrideTasks c kind overrides names = [] := by
  simp only [overrideTasks] at clean ⊢
  split at clean
  · rfl
  · simp at clean

lemma flatMap_memberTasks_eq {c : ClassDefinition} {placed : Bool} {ps : List Parameter}
    (clean : ∀ e, .fail e ∉ ps.flatMap fun p =>
      memberTasks c .parameter placed p.name (p.source? c.overriddenParameters)) (n : Nat) :
    (ps.flatMap fun p =>
      memberTasks c .parameter placed p.name (p.source? c.overriddenParameters)) =
      dependencyTasks c placed
        ((arguments c.overriddenParameters n ps).filterMap (·.source.dependency?)) := by
  induction ps generalizing n with
  | nil => rfl
  | cons p ps ih =>
    simp only [List.flatMap_cons, List.mem_append, not_or] at clean
    obtain ⟨s, hs, ht⟩ := memberTasks_eq fun e => (clean e).1
    rw [List.flatMap_cons, ih (fun e => (clean e).2) (n + 1), ht, ← dependencyTasks_append,
      arguments, hs]
    cases hd : s.dependency? <;> simp [hd]

/-- Unless resolution gives up, its tasks for parameters are those for the dependencies. -/
lemma parameterTasks_eq {c : ClassDefinition} {placed : Bool} {ps : List Parameter}
    (clean : ∀ e, .fail e ∉ parameterTasks c placed ps) :
    parameterTasks c placed ps = dependencyTasks c placed
      ((arguments c.overriddenParameters 0 ps).filterMap (·.source.dependency?)) := by
  simp only [parameterTasks, List.mem_append, not_or] at clean
  rw [parameterTasks, flatMap_memberTasks_eq (fun e => (clean e).1) 0,
    overrideTasks_eq_nil fun e => (clean e).2, List.append_nil]

lemma flatMap_fieldTask_eq {c : ClassDefinition} {placed : Bool} {fs : List Field}
    (clean : ∀ e, .fail e ∉ fs.flatMap (fieldTask c placed)) :
    fs.flatMap (fieldTask c placed) = dependencyTasks c placed
      ((injectedFields c.overriddenFields fs).filterMap (·.source.dependency?)) := by
  induction fs with
  | nil => rfl
  | cons f fs ih =>
    simp only [List.flatMap_cons, List.mem_append, not_or] at clean
    rw [List.flatMap_cons, ih fun e => (clean e).2]
    have clean := fun e => (clean e).1
    simp only [fieldTask] at clean ⊢
    by_cases hi : f.isInjected c.overriddenFields
    · simp only [hi, if_true] at clean ⊢
      split at clean
      · simp at clean
      · next hst =>
        obtain ⟨s, hs, ht⟩ := memberTasks_eq clean
        rw [if_neg hst, ht, ← dependencyTasks_append, injectedFields, injectedFields,
          List.filter_cons_of_pos hi, List.filterMap_cons, hs]
        cases hd : s.dependency? <;> simp [hd]
    · simp [hi, injectedFields]

/-- Unless resolution gives up, its tasks for fields are those for the dependencies. -/
lemma fieldTasks_eq {c : ClassDefinition} {placed : Bool} {fs : List Field}
    (clean : ∀ e, .fail e ∉ fieldTasks c placed fs) :
    fieldTasks c placed fs = dependencyTasks c placed
      ((injectedFields c.overriddenFields fs).filterMap (·.source.dependency?)) := by
  simp only [fieldTasks, List.mem_append, not_or] at clean
  rw [fieldTasks, flatMap_fieldTask_eq fun e => (clean e).1,
    overrideTasks_eq_nil fun e => (clean e).2, List.append_nil]

namespace Wiring

variable {w : Wiring}

lemma class?_of_mem_directTasks {id : Identifier} {consumer : Option Identifier} {d : Definition}
    {t : Task} (h : t ∈ directTasks id consumer d) : t.class? = none := by
  simp only [directTasks] at h
  split at h
  · rw [List.mem_singleton.1 h]
    rfl
  · simp at h

lemma class?_of_mem_hintedTasks {g : Graph} {id : Identifier} {consumer : Option Identifier}
    {placed : Bool} {made : List Identifier} {t : Task}
    (h : t ∈ hintedTasks g id consumer placed made) : t.class? = none := by
  have requested : ∀ {ks : List Identifier} {c : Option Identifier},
      t ∈ ks.map (fun k => Task.request k c placed) → t.class? = none := by
    intro ks c h
    obtain ⟨k, -, rfl⟩ := List.mem_map.1 h
    rfl
  rcases List.mem_append.1 h with h | h
  · exact requested h
  · split at h
    · cases h
    · rw [List.mem_singleton.1 h]
      rfl
    · rcases List.mem_append.1 h with h | h
      · exact requested h
      · exact class?_of_mem_directTasks h

/-! ### What the provider says of a class -/

/-- The source and the arguments of a class are as the provider describes them. -/
structure DescribesArguments (w : Wiring) (c : ClassDefinition) : Prop where
  source : w.provider.sourceUnit c.id = .ok c.sourceUnit
  arguments : ∃ ps, w.parametersOf c.id = .ok ps ∧
    c.arguments = arguments c.overriddenParameters 0 ps

/-- The fields of a class are as the provider describes them, too. -/
structure Describes (w : Wiring) (c : ClassDefinition) : Prop extends
    w.DescribesArguments c where
  fields : ∃ fs, w.fieldsOf c.id = .ok fs ∧ c.fields = injectedFields c.overriddenFields fs

/-! ### The cases -/

/-- What doing a task does to a graph, and which tasks come next. -/
inductive Step (w : Wiring) (g : Graph) : Task → Graph → List Task → Prop
  /-- The identifier becomes a class. -/
  | own {id : Identifier} {consumer : Option Identifier} {placed : Bool} {c : ClassDefinition}
      {checks : List Task} (absent : g.find? id = none) (new : w.Newborn id (.cls c))
      (rechecks : ∀ t ∈ checks, t = .check id consumer) :
      Step w g (.request id consumer placed) (g.insertIfAbsent (.cls c))
        (.request id consumer placed :: checks)
  /-- A hint expands the identifier into something else than a class. -/
  | bind {id : Identifier} {consumer : Option Identifier} {placed : Bool} {d : Definition}
      {rest : List (Identifier × Definition)} {others : List Identifier}
      (absent : g.find? id = none) (expansion : w.Expansion id d rest)
      (notClass : ∀ c, d ≠ .cls c)
      (fresh : ∀ k, k ∈ others ↔ k ≠ id ∧ g.find? k = none ∧ ∃ d', (k, d') ∈ rest) :
      Step w g (.request id consumer placed) (g.insertAll ((id, d) :: rest)).1
        ((others ++ d.dependencies).map (fun k => .request k (some id) placed)
          ++ directTasks id consumer d ++ [.check id consumer])
  /-- The discovery of a class begins. -/
  | discover {id : Identifier} {consumer : Option Identifier} {placed : Bool}
      {c : ClassDefinition} (found : ClassDefinition) (present : g.find? id = some (.cls c))
      (pending : c.progress = .pending) (same : found.shape = c.shape)
      (described : w.DescribesArguments found) (fieldless : found.fields = []) :
      Step w g (.request id consumer placed) (g.adjust c.id Definition.begun)
        (dependencyTasks c placed found.dependencies ++ [.discoverFields found placed])
  /-- The discovery of a class has begun before. -/
  | known {id : Identifier} {consumer : Option Identifier} {placed : Bool} {c : ClassDefinition}
      (present : g.find? id = some (.cls c)) (begun : c.progress ≠ .pending) :
      Step w g (.request id consumer placed) g []
  /-- The identifier is defined as something else than a class. -/
  | bound {id : Identifier} {consumer : Option Identifier} {placed : Bool} {d : Definition}
      (present : g.find? id = some d) (notClass : ∀ c, d ≠ .cls c) :
      Step w g (.request id consumer placed) g [.check id consumer]
  | check {id : Identifier} {consumer : Option Identifier}
      (bound : checkBranch g id consumer = .ok ()) : Step w g (.check id consumer) g []
  | count (id consumer : Identifier) (singleton : Bool) :
      Step w g (.count id consumer singleton) (g.recordReference consumer singleton id) []
  /-- The fields of a class are found out. -/
  | discoverFields {c : ClassDefinition} {placed : Bool} {fs : List Field}
      (answer : w.fieldsOf c.id = .ok fs) :
      Step w g (.discoverFields c placed) g
        (dependencyTasks c placed
          ((injectedFields c.overriddenFields fs).filterMap (·.source.dependency?))
          ++ [.complete { c with fields := injectedFields c.overriddenFields fs }])
  | complete (c : ClassDefinition) :
      Step w g (.complete c) (g.adjust c.id (Definition.completed c)) []

lemma arguments_of_not_constructor {cls : Identifier} {ps : List Parameter}
    (h : w.config.injection.constructor = false) (hp : w.parametersOf cls = .ok ps) : ps = [] := by
  simpa [parametersOf, h, pure, Except.pure, eq_comm] using hp

lemma fields_of_not_fields {cls : Identifier} {fs : List Field}
    (h : w.config.injection.fields = false) (hf : w.fieldsOf cls = .ok fs) : fs = [] := by
  simpa [fieldsOf, h, pure, Except.pure, eq_comm] using hf

lemma Step.of_discover {g g' : Graph} {id : Identifier} {consumer : Option Identifier}
    {placed : Bool} {c : ClassDefinition} {next : List Task}
    (present : g.find? id = some (.cls c)) (pending : c.progress = .pending)
    (h : w.discover g c placed = .ok (g', next)) (clean : ∀ e, .fail e ∉ next) :
    w.Step g (.request id consumer placed) g' next := by
  obtain ⟨source, hs, h⟩ := bind_eq_ok.1 h
  obtain ⟨ps, hp, h⟩ := bind_eq_ok.1 h
  cases h
  have tasks : (if w.config.injection.constructor then parameterTasks c placed ps else []) =
      dependencyTasks c placed
        ((arguments c.overriddenParameters 0 ps).filterMap (·.source.dependency?)) := by
    split
    · next hc =>
      refine parameterTasks_eq fun e he => clean e ?_
      simpa [hc] using he
    · next hc =>
      obtain rfl := arguments_of_not_constructor (by simpa using hc) hp
      rfl
  rw [tasks]
  let found : ClassDefinition :=
    { c with
      sourceUnit := source, arguments := arguments c.overriddenParameters 0 ps, fields := [] }
  have dependencies : found.dependencies =
      (arguments c.overriddenParameters 0 ps).filterMap (·.source.dependency?) := by
    rw [found.dependencies_eq]
    exact List.append_nil _
  rw [← dependencies]
  exact .discover found present pending rfl ⟨hs, ps, hp, rfl⟩ rfl

lemma Step.of_discoverFields {g g' : Graph} {placed : Bool} {c : ClassDefinition}
    {next : List Task} (h : w.discoverFields g c placed = .ok (g', next))
    (clean : ∀ e, .fail e ∉ next) : w.Step g (.discoverFields c placed) g' next := by
  obtain ⟨fs, hf, h⟩ := bind_eq_ok.1 h
  cases h
  have tasks : (if w.config.injection.fields then fieldTasks c placed fs else []) =
      dependencyTasks c placed
        ((injectedFields c.overriddenFields fs).filterMap (·.source.dependency?)) := by
    split
    · next hc =>
      refine fieldTasks_eq fun e he => clean e ?_
      simpa [hc] using he
    · next hc =>
      obtain rfl := fields_of_not_fields (by simpa using hc) hf
      rfl
  rw [tasks]
  exact .discoverFields hf

lemma define_of_hint (g : Graph) {id : Identifier} (consumer : Option Identifier) {placed : Bool}
    {hint : Hint} {ds : List (Identifier × Definition)} (found : w.hints.find? id = some hint)
    (h : hint.definitions w.entries w.hints id (placed && !w.config.staysInline id) = .ok ds) :
    w.define g id consumer placed = .ok ((g.insertAll (w.inlined ds)).1,
      hintedTasks (g.insertAll (w.inlined ds)).1 id consumer placed
        (g.insertAll (w.inlined ds)).2 ++ [.check id consumer]) := by
  simp only [define, found, h]
  rfl

/-- A hint that makes a class of an identifier makes nothing else. -/
lemma Expansion.rest_eq_nil {id : Identifier} {c : ClassDefinition}
    {rest : List (Identifier × Definition)} (h : w.Expansion id (.cls c) rest) : rest = [] := by
  apply List.eq_nil_iff_forall_not_mem.2
  intro e he
  have := h.named e he
  simp [h.first.namedDependencies_cls] at this

/-- An identifier without a definition gets one from its hint. -/
lemma Step.of_expansion {g : Graph} {id : Identifier} (consumer : Option Identifier)
    (placed : Bool) {d : Definition} {rest : List (Identifier × Definition)}
    (absent : g.find? id = none) (expansion : w.Expansion id d rest) :
    w.Step g (.request id consumer placed) (g.insertAll ((id, d) :: rest)).1
      (hintedTasks (g.insertAll ((id, d) :: rest)).1 id consumer placed
        (g.insertAll ((id, d) :: rest)).2 ++ [.check id consumer]) := by
  have first := expansion.find?_first absent
  have fresh : ∀ k, k ∈ (g.insertAll ((id, d) :: rest)).2.filter (· ≠ id) ↔
      k ≠ id ∧ g.find? k = none ∧ ∃ d', (k, d') ∈ rest := by
    intro k
    rw [List.mem_filter, Graph.mem_new_insertAll expansion.keyed]
    by_cases hk : k = id
    · simp [hk]
    · simp [hk]
  by_cases hc : ∃ c, d = .cls c
  · obtain ⟨c, rfl⟩ := hc
    obtain rfl := expansion.rest_eq_nil
    have none : (g.insertAll [(id, .cls c)]).2.filter (· ≠ id) = [] :=
      List.eq_nil_iff_forall_not_mem.2 fun k hk => by simpa using (fresh k).1 hk
    have graph : (g.insertAll [(id, .cls c)]).1 = g.insertIfAbsent (.cls c) := by
      have hid : c.id = id := expansion.first.id_eq
      simp [Graph.insertAll, Definition.id, hid, absent]
    rw [hintedTasks, none, first, graph]
    exact .own absent expansion.first (by simp)
  · rw [hintedTasks, first]
    have notClass : ∀ c, d ≠ .cls c := fun c hd => hc ⟨c, hd⟩
    have tasks : w.Step g (.request id consumer placed) _ _ :=
      .bind absent expansion notClass fresh
    cases d with
    | cls c => exact absurd rfl (notClass c)
    | _ => simpa only [List.map_append, List.append_assoc] using tasks

/-- An identifier is defined by its hint, or as a class of its own. -/
lemma definitions_of_define {g g' : Graph} {id : Identifier} {consumer : Option Identifier}
    {placed : Bool} {next : List Task} (h : w.define g id consumer placed = .ok (g', next)) :
    (∃ hint ds, w.hints.find? id = some hint ∧
      hint.definitions w.entries w.hints id (placed && !w.config.staysInline id) = .ok ds ∧
      g' = (g.insertAll (w.inlined ds)).1 ∧
      next = hintedTasks g' id consumer placed (g.insertAll (w.inlined ds)).2
        ++ [.check id consumer]) ∨
    w.hints.find? id = none ∧
      g' = g.insertIfAbsent (.cls (w.ownDefinition id (placed && !w.config.staysInline id))) ∧
      next = [.request id consumer placed] := by
  cases found : w.hints.find? id with
  | some hint =>
    have h' := h
    simp only [define, found] at h'
    obtain ⟨ds, hd, -⟩ := bind_eq_ok.1 h'
    rw [define_of_hint g consumer found hd] at h
    cases h
    exact .inl ⟨hint, ds, rfl, hd, rfl, rfl⟩
  | none =>
    simp only [define, found] at h
    cases h
    exact .inr ⟨rfl, rfl, rfl⟩

/-- An identifier is defined as its hint unfolds it, or as a class of its own. -/
lemma cases_of_define {g g' : Graph} {id : Identifier} {consumer : Option Identifier}
    {placed : Bool} {next : List Task} (h : w.define g id consumer placed = .ok (g', next)) :
    (∃ hint d rest, w.Unfolds hint id d rest ∧ g' = (g.insertAll ((id, d) :: rest)).1 ∧
      next = hintedTasks g' id consumer placed (g.insertAll ((id, d) :: rest)).2
        ++ [.check id consumer]) ∨
    ∃ c, w.Newborn id (.cls c) ∧ g' = g.insertIfAbsent (.cls c) ∧
      next = [.request id consumer placed] := by
  rcases definitions_of_define h with ⟨hint, ds, found, hd, rfl, rfl⟩ | ⟨-, rfl, rfl⟩
  · obtain ⟨d, rest, hi, unfolds⟩ := unfolds_definitions found hd
    rw [hi]
    exact .inl ⟨hint, d, rest, unfolds, rfl, rfl⟩
  · exact .inr ⟨_, newborn_classDefinition w id {} _, rfl, rfl⟩

/-- Definitions that are there are not touched, and no class is to be completed yet. -/
lemma kept_of_define {g g' : Graph} {id : Identifier} {consumer : Option Identifier}
    {placed : Bool} {next : List Task} (h : w.define g id consumer placed = .ok (g', next)) :
    (∀ k d, g.find? k = some d → g'.find? k = some d) ∧ ∀ t ∈ next, t.class? = none := by
  rcases cases_of_define h with ⟨hint, d, rest, unfolds, rfl, rfl⟩ | ⟨c, -, rfl, rfl⟩
  · constructor
    · intro k d hk
      rw [Graph.find?_insertAll g unfolds.keyed, hk, Option.some_or]
    · intro t ht
      rcases List.mem_append.1 ht with ht | ht
      · exact class?_of_mem_hintedTasks ht
      · rw [List.mem_singleton.1 ht]
        rfl
  · constructor
    · intro k d hk
      rw [Graph.find?_insertIfAbsent, hk]
      simp
    · intro t ht
      rw [List.mem_singleton.1 ht]
      rfl

/-- An identifier without a definition gets one. -/
lemma Step.of_define {g g' : Graph} {id : Identifier} {consumer : Option Identifier}
    {placed : Bool} {next : List Task} (absent : g.find? id = none)
    (h : w.define g id consumer placed = .ok (g', next)) :
    w.Step g (.request id consumer placed) g' next := by
  rcases cases_of_define h with ⟨hint, d, rest, unfolds, rfl, rfl⟩ | ⟨c, new, rfl, rfl⟩
  · exact .of_expansion consumer placed absent unfolds.toExpansion
  · exact .own absent new (by simp)

/-- What a task does in a run that succeeds. -/
theorem Step.of_perform {g g' : Graph} {t : Task} {next : List Task}
    (h : w.perform g t = .ok (g', next)) (clean : ∀ e, .fail e ∉ next) : w.Step g t g' next := by
  cases t with
  | request id consumer placed =>
    simp only [perform] at h
    split at h
    · next absent => exact .of_define absent h
    · next c present =>
      split at h
      · next pending => exact .of_discover present pending h clean
      · next begun => cases h; exact .known present begun
    · next d notClass present =>
      cases h
      exact .bound present fun c hd => notClass c hd
  | check id consumer =>
    obtain ⟨_, hc, h⟩ := bind_eq_ok.1 h
    cases h
    exact .check hc
  | count id consumer singleton => cases h; exact .count id consumer singleton
  | discoverFields c placed => exact .of_discoverFields h clean
  | complete c => cases h; exact .complete c
  | fail e => cases h

/-! ### What a task does to a graph -/

/-- A task defines an identifier that has no definition, or leaves all shapes as they are. -/
lemma shape?_of_perform {g g' : Graph} {t : Task} {next : List Task}
    (h : w.perform g t = .ok (g', next)) :
    (∃ id consumer placed, t = .request id consumer placed ∧ g.find? id = none ∧
      w.define g id consumer placed = .ok (g', next)) ∨ ∀ k, g'.shape? k = g.shape? k := by
  cases t with
  | request id consumer placed =>
    simp only [perform] at h
    split at h
    · next absent => exact .inl ⟨id, consumer, placed, rfl, absent, h⟩
    · split at h
      · obtain ⟨_, -, h⟩ := bind_eq_ok.1 h
        obtain ⟨_, -, h⟩ := bind_eq_ok.1 h
        cases h
        exact .inr (Graph.shape?_adjust Definition.shape_begun g _)
      · cases h
        exact .inr fun _ => rfl
    · cases h
      exact .inr fun _ => rfl
  | check id consumer =>
    obtain ⟨_, -, h⟩ := bind_eq_ok.1 h
    cases h
    exact .inr fun _ => rfl
  | count id consumer singleton =>
    cases h
    exact .inr (Graph.shape?_recordReference g _ _ _)
  | discoverFields c placed =>
    obtain ⟨_, -, h⟩ := bind_eq_ok.1 h
    cases h
    exact .inr fun _ => rfl
  | complete c =>
    cases h
    exact .inr (Graph.shape?_adjust (Definition.shape_completed c) g _)
  | fail e => cases h

/-- What is defined stays, also if the run is going to fail. -/
lemma keeps_of_perform {g g' : Graph} {t : Task} {next : List Task}
    (h : w.perform g t = .ok (g', next)) : g.Keeps g' := by
  rcases shape?_of_perform h with ⟨id, consumer, placed, -, -, h⟩ | same
  · rcases cases_of_define h with ⟨hint, d, rest, unfolds, rfl, -⟩ | ⟨c, -, rfl, -⟩
    · exact g.keeps_insertAll unfolds.keyed
    · exact g.keeps_insertIfAbsent _
  · exact .of_shape?_eq same

/-! ### What a task brings up -/

/-- A task that another one brings up, with the reason for it. -/
inductive Brings (w : Wiring) (g g' : Graph) : Task → Task → Prop
  | again {id : Identifier} {consumer : Option Identifier} {placed : Bool} :
      Brings w g g' (.request id consumer placed) (.request id consumer placed)
  | check {id : Identifier} {consumer : Option Identifier} {placed : Bool} :
      Brings w g g' (.request id consumer placed) (.check id consumer)
  /-- A new definition asks for what it names. -/
  | named {id k : Identifier} {consumer : Option Identifier} {placed : Bool} {d : Definition}
      (new : w.Newborn id d) (made : g'.find? id = some d) (notClass : ∀ c, d ≠ .cls c)
      (hk : k ∈ d.namedDependencies) :
      Brings w g g' (.request id consumer placed) (.request k (some id) placed)
  /-- An entry point refers to its own target. -/
  | direct {id target : Identifier} {placed : Bool} {d : Definition} (absent : g.find? id = none)
      (made : g'.find? id = some d) (notClass : ∀ c, d ≠ .cls c) :
      Brings w g g' (.request id none placed) (.count target id d.scope.isSingleton)
  | argument {id j : Identifier} {consumer : Option Identifier} {placed : Bool}
      {c found : ClassDefinition} (present : g.find? id = some (.cls c))
      (same : found.shape = c.shape) (described : w.DescribesArguments found)
      (fieldless : found.fields = []) (hj : j ∈ found.dependencies) :
      Brings w g g' (.request id consumer placed) (.request j (some c.id) placed)
  | argumentCount {id j : Identifier} {consumer : Option Identifier} {placed : Bool}
      {c : ClassDefinition} (present : g.find? id = some (.cls c)) :
      Brings w g g' (.request id consumer placed) (.count j c.id c.scope.isSingleton)
  | fields {id : Identifier} {consumer : Option Identifier} {placed : Bool}
      {found : ClassDefinition} :
      Brings w g g' (.request id consumer placed) (.discoverFields found placed)
  | field {c : ClassDefinition} {placed : Bool} {fs : List Field} {j : Identifier}
      (answer : w.fieldsOf c.id = .ok fs)
      (hj : j ∈ (injectedFields c.overriddenFields fs).filterMap (·.source.dependency?)) :
      Brings w g g' (.discoverFields c placed) (.request j (some c.id) placed)
  | fieldCount {c : ClassDefinition} {placed : Bool} {j : Identifier} :
      Brings w g g' (.discoverFields c placed) (.count j c.id c.scope.isSingleton)
  | completion {c found : ClassDefinition} {placed : Bool} :
      Brings w g g' (.discoverFields c placed) (.complete found)

/-- There is a reason for every task that comes next. -/
lemma Step.brings {g g' : Graph} {t t' : Task} {next : List Task} (h : w.Step g t g' next)
    (ht : t' ∈ next) : w.Brings g g' t t' := by
  cases h with
  | own _ _ rechecks =>
    rcases List.mem_cons.1 ht with rfl | ht
    · exact .again
    · rw [rechecks t' ht]
      exact .check
  | @bind id consumer placed d rest others absent expansion notClass fresh =>
    have made := expansion.find?_first absent
    simp only [List.mem_append, List.mem_singleton] at ht
    rcases ht with (ht | ht) | rfl
    · obtain ⟨k, hk, rfl⟩ := List.mem_map.1 ht
      apply Brings.named expansion.first made notClass
      rcases List.mem_append.1 hk with hk | hk
      · obtain ⟨-, -, d', hd'⟩ := (fresh k).1 hk
        exact expansion.named _ hd'
      · exact Definition.mem_dependencies.1 hk
    · simp only [directTasks] at ht
      split at ht
      · rw [List.mem_singleton.1 ht]
        exact .direct absent made notClass
      · cases ht
    · exact .check
  | discover found present pending same described fieldless =>
    rcases List.mem_append.1 ht with ht | ht
    · obtain ⟨j, hj, rfl | rfl⟩ := mem_dependencyTasks.1 ht
      · exact .argument present same described fieldless hj
      · exact .argumentCount present
    · rw [List.mem_singleton.1 ht]
      exact .fields
  | discoverFields answer =>
    rcases List.mem_append.1 ht with ht | ht
    · obtain ⟨j, hj, rfl | rfl⟩ := mem_dependencyTasks.1 ht
      · exact .field answer hj
      · exact .fieldCount
    · rw [List.mem_singleton.1 ht]
      exact .completion
  | bound =>
    rw [List.mem_singleton.1 ht]
    exact .check
  | known | check | count | complete => cases ht

/-- What a task asks for goes where the task says. -/
lemma Step.placed?_eq {g g' : Graph} {t t' : Task} {next : List Task} (h : w.Step g t g' next) (ht : t' ∈ next)
    {b : Bool} (hb : t'.placed? = some b) : t.placed? = some b := by
  cases h.brings ht with
  | again | named | argument | fields | field => exact hb
  | check | direct | argumentCount | fieldCount | completion => cases hb

/-! ### Invariants -/

lemma Leads.clean_of_perform {g g' : Graph} {ts : List Task} (ok : w.run g ts = some (.ok g'))
    {h h' : Graph} {t : Task} {rest next : List Task} (before : w.Leads g ts h (t :: rest))
    (done : w.perform h t = .ok (h', next)) (e : Error) : .fail e ∉ next := by
  intro he
  have outcome : w.run h' (next ++ rest) = some (.ok g') := (before.step done).run_eq.trans ok
  exact not_mem_fail_of_run outcome e (List.mem_append_left rest he)

lemma Leads.step_of_perform {g g' : Graph} {ts : List Task} (ok : w.run g ts = some (.ok g'))
    {h h' : Graph} {t : Task} {rest next : List Task} (before : w.Leads g ts h (t :: rest))
    (done : w.perform h t = .ok (h', next)) : w.Step h t h' next :=
  .of_perform done (before.clean_of_perform ok done)

/-- What every step preserves holds in all states of a run that succeeds. -/
theorem Leads.invariant {P : Graph → List Task → Prop} {g g' : Graph} {ts : List Task}
    (ok : w.run g ts = some (.ok g')) (start : P g ts)
    (step : ∀ {h h' : Graph} {t : Task} {rest next : List Task}, w.Leads g ts h (t :: rest) →
      w.Leads g ts h' (next ++ rest) → P h (t :: rest) → w.Step h t h' next →
      P h' (next ++ rest))
    {h : Graph} {us : List Task} (l : w.Leads g ts h us) : P h us := by
  induction l with
  | refl => exact start
  | step before done ih => exact step before (before.step done) ih (before.step_of_perform ok done)

/-- In a run that succeeds every task can be done, and does not come to give up. -/
lemma Leads.exists_perform {g g' : Graph} {ts : List Task} (ok : w.run g ts = some (.ok g'))
    {h : Graph} {t : Task} {rest : List Task} (l : w.Leads g ts h (t :: rest)) :
    ∃ h' next, w.perform h t = .ok (h', next) ∧ ∀ e, .fail e ∉ next := by
  cases hp : w.perform h t with
  | error e => cases ((run_of_perform_error hp rest).symm.trans l.run_eq).trans ok
  | ok s => exact ⟨s.1, s.2, rfl, l.clean_of_perform ok hp⟩

/-- In a run that succeeds every task is a step. -/
lemma Leads.exists_step {g g' : Graph} {ts : List Task} (ok : w.run g ts = some (.ok g'))
    {h : Graph} {t : Task} {rest : List Task} (l : w.Leads g ts h (t :: rest)) :
    ∃ h' next, w.Step h t h' next ∧ w.Leads g ts h' (next ++ rest) := by
  obtain ⟨h', next, done, clean⟩ := l.exists_perform ok
  exact ⟨h', next, .of_perform done clean, l.step done⟩

lemma Step.keeps {g g' : Graph} {t : Task} {next : List Task} (h : w.Step g t g' next) :
    g.Keeps g' := by
  cases h with
  | own => exact g.keeps_insertIfAbsent _
  | bind absent expansion notClass fresh => exact g.keeps_insertAll expansion.keyed
  | discover => exact .of_shape?_eq (Graph.shape?_adjust Definition.shape_begun g _)
  | count => exact .of_shape?_eq (Graph.shape?_recordReference g _ _ _)
  | complete c => exact .of_shape?_eq (Graph.shape?_adjust (Definition.shape_completed c) g _)
  | known | bound | check | discoverFields => exact .refl g

/-- What is defined in a run that succeeds stays. -/
lemma Leads.keeps {g g' : Graph} {ts : List Task} (ok : w.run g ts = some (.ok g')) {h : Graph}
    {us : List Task} (l : w.Leads g ts h us) : g.Keeps h :=
  l.invariant ok (P := fun h _ => g.Keeps h) (.refl g) fun _ _ before step => before.trans step.keeps

end Wiring

end Injector
