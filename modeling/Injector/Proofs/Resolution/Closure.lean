import Injector.Proofs.Resolution.Invariant

/-!
# What a graph consists of

Resolution follows what definitions name. In a state of a run, what is named is defined already or
still asked for, and what is defined or asked for is named, through some definitions, by an entry
point. When nothing is left to do, the graph is closed, and nothing in it is superfluous.
-/

namespace Injector.Wiring

variable {w : Wiring} {roots : List Identifier}

/-! ### Nothing is missing -/

/-- An identifier is asked for a consumer, or is defined and has a branch for it. -/
def Settled (g : Graph) (ts : List Task) (j : Identifier) (consumer : Option Identifier) : Prop :=
  (∃ placed, .request j consumer placed ∈ ts) ∨
    g.contains j ∧ (.check j consumer ∈ ts ∨ checkBranch g j consumer = .ok ())

lemma checkBranch_of_cls {g : Graph} {k : Identifier} {c : ClassDefinition}
    (h : g.find? k = some (.cls c)) (consumer : Option Identifier) :
    checkBranch g k consumer = .ok () := by
  simp [checkBranch, h]

lemma Settled.of_request {g : Graph} {ts : List Task} {j : Identifier}
    {consumer : Option Identifier} {placed : Bool} (h : .request j consumer placed ∈ ts) :
    Settled g ts j consumer :=
  .inl ⟨placed, h⟩

/-- A request is settled by the step that it asks for. -/
lemma Step.settles {g g' : Graph} {j : Identifier} {consumer : Option Identifier} {placed : Bool}
    {next : List Task} (h : w.Step g (.request j consumer placed) g' next) (rest : List Task) :
    Settled g' (next ++ rest) j consumer := by
  cases h with
  | own => exact .of_request List.mem_cons_self
  | bind absent expansion =>
    refine .inr ⟨?_, .inl (by simp)⟩
    rw [Graph.contains_eq, expansion.find?_first absent]
    rfl
  | @discover _ _ _ c found present =>
    obtain ⟨c', hc⟩ : ∃ c', (g.adjust c.id Definition.begun).find? j = some (.cls c') := by
      rw [Graph.find?_adjust, present]
      split <;> exact ⟨_, rfl⟩
    exact .inr ⟨by rw [Graph.contains_eq, hc]; rfl, .inr (checkBranch_of_cls hc _)⟩
  | known present => exact .inr ⟨by simp [present], .inr (checkBranch_of_cls present _)⟩
  | bound present => exact .inr ⟨by simp [present], .inl (by simp)⟩

lemma Step.settled {g g' : Graph} {t : Task} {rest next : List Task} (h : w.Step g t g' next)
    {j : Identifier} {consumer : Option Identifier} (s : Settled g (t :: rest) j consumer) :
    Settled g' (next ++ rest) j consumer := by
  rcases s with ⟨placed, hmem⟩ | ⟨hc, hmem | hb⟩
  · rcases List.mem_cons.1 hmem with rfl | hmem
    · exact h.settles rest
    · exact .of_request (List.mem_append_right next hmem)
  · rcases List.mem_cons.1 hmem with rfl | hmem
    · cases h with
      | check hb => exact .inr ⟨hc, .inr hb⟩
    · exact .inr ⟨h.keeps.contains hc, .inl (List.mem_append_right next hmem)⟩
  · exact .inr ⟨h.keeps.contains hc, .inr (h.keeps.checkBranch hc hb)⟩

/-- All that definitions name, and that classes will name, is settled. -/
structure Closed (g : Graph) (ts : List Task) : Prop where
  defined : ∀ k d, g.find? k = some d → ∀ j ∈ d.namedDependencies, Settled g ts j (some k)
  completing : ∀ t ∈ ts, ∀ c, t.class? = some c → ∀ j ∈ c.dependencies, Settled g ts j (some c.id)

lemma closed_start (w : Wiring) (roots : List Identifier) :
    Closed (w.start roots) (roots.map w.rootTask) where
  defined k d hk j hj := by
    rw [find?_start, find?_seed] at hk
    split at hk
    · cases hk
      simp [Definition.namedDependencies] at hj
    · split at hk
      · cases hk
        simp [Definition.namedDependencies] at hj
      · cases hk
  completing t ht c hc := by
    obtain ⟨r, -, rfl⟩ := List.mem_map.1 ht
    cases hc

/-- What a new definition names is asked for at once. -/
lemma Step.requests_named {g g' : Graph} {t : Task} {next : List Task} (h : w.Step g t g' next)
    {k : Identifier} {d : Definition} (absent : g.find? k = none) (hk : g'.find? k = some d)
    (new : w.Newborn k d) {j : Identifier} (hj : j ∈ d.namedDependencies) :
    ∃ placed, .request j (some k) placed ∈ next := by
  have notClass : ∀ c, d ≠ .cls c := by
    rintro c rfl
    simp [new.namedDependencies_cls] at hj
  cases h.makes absent hk with
  | own eq => exact absurd eq (notClass _)
  | @first _ placed => exact ⟨placed, by simp [hj]⟩
  | other _ expansion _ hd =>
    obtain ⟨c, hc⟩ := expansion.classes _ hd
    exact absurd hc (notClass c)

lemma Closed.completing_next {g g' : Graph} {t : Task} {rest next : List Task}
    (cl : Closed g (t :: rest)) (h : w.Step g t g' next) {t' : Task} (ht : t' ∈ next)
    {c : ClassDefinition} (hc : t'.class? = some c) {j : Identifier} (hj : j ∈ c.dependencies) :
    Settled g' (next ++ rest) j (some c.id) := by
  cases h.origin ht hc with
  | begun _ _ _ _ requests => exact .of_request (List.mem_append_left rest (requests j hj))
  | @continued c₁ _ fs answer requests =>
    rw [ClassDefinition.dependencies_eq] at hj
    rcases List.mem_append.1 hj with hj | hj
    -- its arguments were asked for when the discovery began, and those requests are settled
    · have hj : j ∈ c₁.dependencies := by
        rw [ClassDefinition.dependencies_eq]
        exact List.mem_append_left _ hj
      exact h.settled (cl.completing _ List.mem_cons_self c₁ rfl j hj)
    · exact .of_request (List.mem_append_left rest (requests j hj))

lemma Step.closed {g g' : Graph} {t : Task} {rest next : List Task} (h : w.Step g t g' next)
    (o : w.Original g) (cl : Closed g (t :: rest)) : Closed g' (next ++ rest) where
  defined k d' hk j hj := by
    rcases h.find?_cases o hk with ⟨absent, new⟩ | ⟨d, hd, altered⟩
    · obtain ⟨placed, hmem⟩ := h.requests_named absent hk new hj
      exact .of_request (List.mem_append_left rest hmem)
    have carried : j ∈ d.namedDependencies → Settled g' (next ++ rest) j (some k) := fun hj =>
      h.settled (cl.defined k d hd j hj)
    cases altered with
    | kept => exact carried hj
    | begun _ _ eq =>
      subst eq
      exact carried hj
    | counted =>
      rw [Definition.namedDependencies_addReferrer] at hj
      exact carried hj
    | @completed c complete hid =>
      subst complete
      cases d with
      | cls c₀ =>
        rw [← hid]
        exact h.settled (cl.completing _ List.mem_cons_self c rfl j hj)
      | _ => exact carried hj
  completing t' ht c hc j hj := by
    rcases List.mem_append.1 ht with ht | ht
    · exact cl.completing_next h ht hc hj
    · exact h.settled (cl.completing t' (List.mem_cons_of_mem t ht) c hc j hj)

lemma closed_of_visits {g h : Graph} {us : List Task} (ok : w.Yields roots g)
    (v : w.Visits roots h us) : Closed h us :=
  Leads.invariant ok (P := Closed) (closed_start w roots)
    (fun before _ cl step => step.closed (original_of_visits ok before) cl) v

lemma Settled.of_done {g : Graph} {j : Identifier} {consumer : Option Identifier}
    (h : Settled g [] j consumer) : g.contains j ∧ checkBranch g j consumer = .ok () := by
  rcases h with ⟨_, h⟩ | ⟨hc, h | hb⟩
  · cases h
  · cases h
  · exact ⟨hc, hb⟩

/-- In the end what a definition names is defined, with a branch for the one that names it. -/
theorem Yields.settled {g : Graph} (ok : w.Yields roots g) {k j : Identifier} {d : Definition}
    (hk : g.find? k = some d) (hj : j ∈ d.namedDependencies) :
    g.contains j ∧ checkBranch g j (some k) = .ok () :=
  ((closed_of_visits ok ok.visits).defined k d hk j hj).of_done

/-- In the end every entry point is defined, with a branch for direct use. -/
theorem Yields.settled_root {g : Graph} (ok : w.Yields roots g) {r : Identifier}
    (hr : r ∈ roots) : g.contains r ∧ checkBranch g r none = .ok () := by
  have start : Settled (w.start roots) (roots.map w.rootTask) r none :=
    .of_request (List.mem_map.2 ⟨r, hr, rfl⟩)
  exact (Leads.invariant ok (P := fun h us => Settled h us r none) start
    (fun _ _ s step => step.settled s) ok.visits).of_done

/-! ### Nothing is superfluous -/

/-- What a definition names, or will name once its class is discovered. -/
def Needs (w : Wiring) : Definition → Identifier → Prop
  | .cls c, j =>
    (∃ ps, w.parametersOf c.id = .ok ps ∧
      j ∈ (arguments c.overriddenParameters 0 ps).filterMap (·.source.dependency?)) ∨
    ∃ fs, w.fieldsOf c.id = .ok fs ∧
      j ∈ (injectedFields c.overriddenFields fs).filterMap (·.source.dependency?)
  | .autoloaded inner .., j => w.Needs inner j
  | d, j => j ∈ d.namedDependencies

lemma needs_shape {d : Definition} {j : Identifier} : w.Needs d.shape j ↔ w.Needs d j := by
  induction d using Definition.id.induct with
  | case5 inner _ _ ih => exact ih
  | _ => exact Iff.rfl

lemma needs_of_shape_eq {c c' : ClassDefinition} (h : c.shape = c'.shape) {j : Identifier} :
    w.Needs (.cls c) j ↔ w.Needs (.cls c') j := by
  rw [← needs_shape, ← needs_shape (d := .cls c'), Definition.shape, Definition.shape, h]

/-- What a class needs is what it names, if the provider describes it. -/
lemma Describes.mem_dependencies {c : ClassDefinition} (h : w.Describes c) {j : Identifier} :
    j ∈ c.dependencies ↔ w.Needs (.cls c) j := by
  obtain ⟨⟨-, ps, hps, arguments⟩, fs, hfs, fields⟩ := h
  rw [ClassDefinition.dependencies_eq, List.mem_append, ClassDefinition.argumentDependencies,
    ClassDefinition.fieldDependencies, arguments, fields]
  constructor
  · rintro (h | h)
    · exact .inl ⟨ps, hps, h⟩
    · exact .inr ⟨fs, hfs, h⟩
  · rintro (⟨ps', hps', h⟩ | ⟨fs', hfs', h⟩)
    · cases hps.symm.trans hps'
      exact .inl h
    · cases hfs.symm.trans hfs'
      exact .inr h

/-- One identifier needs another one. -/
def Edge (w : Wiring) (g : Graph) (a b : Identifier) : Prop :=
  ∃ d, g.find? a = some d ∧ w.Needs d b

/-- An entry point needs the identifier, through others or as itself. -/
def Reached (w : Wiring) (roots : List Identifier) (g : Graph) (k : Identifier) : Prop :=
  ∃ r ∈ roots, Relation.ReflTransGen (w.Edge g) r k

lemma Edge.mono {g g' : Graph} (keeps : g.Keeps g') {a b : Identifier} (h : w.Edge g a b) :
    w.Edge g' a b := by
  obtain ⟨d, hd, hb⟩ := h
  obtain ⟨d', hd', shape⟩ := keeps.exists_find? hd
  exact ⟨d', hd', needs_shape.1 (shape ▸ needs_shape.2 hb)⟩

lemma Reached.mono {g g' : Graph} (keeps : g.Keeps g') {k : Identifier}
    (h : w.Reached roots g k) : w.Reached roots g' k := by
  obtain ⟨r, hr, path⟩ := h
  exact ⟨r, hr, Relation.ReflTransGen.mono (fun _ _ => Edge.mono keeps) _ _ path⟩

lemma Reached.trans {g : Graph} {a b : Identifier} (h : w.Reached roots g a)
    (step : Relation.ReflGen (w.Edge g) a b) : w.Reached roots g b := by
  obtain ⟨r, hr, path⟩ := h
  exact ⟨r, hr, path.trans step.to_reflTransGen⟩

/-- All that is asked for, discovered or defined is needed. -/
structure Rooted (w : Wiring) (roots : List Identifier) (g : Graph) (ts : List Task) : Prop where
  requested : ∀ k consumer placed, .request k consumer placed ∈ ts → w.Reached roots g k
  completing : ∀ t ∈ ts, ∀ c, t.class? = some c → w.Reached roots g c.id
  defined : ∀ k, g.contains k → (seed w.config).contains k ∨ w.Reached roots g k

lemma rooted_start (w : Wiring) (roots : List Identifier) :
    w.Rooted roots (w.start roots) (roots.map w.rootTask) where
  requested k consumer placed h := by
    obtain ⟨r, hr, eq⟩ := List.mem_map.1 h
    cases eq
    exact ⟨_, hr, .refl⟩
  completing t ht c hc := by
    obtain ⟨r, -, rfl⟩ := List.mem_map.1 ht
    cases hc
  defined k hk := by
    rw [Graph.contains_eq, find?_start] at hk
    exact .inl hk

/-- An identifier that is no class needs what its definition names when it is made. -/
lemma Newborn.edge {g : Graph} {id : Identifier} {d : Definition} (new : w.Newborn id d)
    (made : g.find? id = some d) (notClass : ∀ c, d ≠ .cls c) {k : Identifier}
    (hk : k ∈ d.namedDependencies) : w.Edge g id k := by
  refine ⟨d, made, ?_⟩
  have plain := new.plain
  cases plain with
  | cls c => exact absurd rfl (notClass c)
  | forwarding | branching => exact hk

lemma Step.subject_of_request {g g' : Graph} {t : Task} {rest next : List Task}
    (h : w.Step g t g' next) (u : w.Underway g (t :: rest)) {k : Identifier}
    {consumer : Option Identifier} {placed : Bool} (hk : .request k consumer placed ∈ next) :
    ∃ j, t.subject? = some j ∧ Relation.ReflGen (w.Edge g') j k := by
  have keeps := h.keeps
  cases h.brings hk with
  | again => exact ⟨k, rfl, .refl⟩
  | @named id _ _ _ d new made notClass hn => exact ⟨id, rfl, .single (new.edge made notClass hn)⟩
  | @argument id _ _ _ c found present same described fieldless hj =>
    obtain ⟨-, ps, hps, args⟩ := described
    have hid : found.id = c.id := (congrArg ClassDefinition.id same :)
    have hp : found.overriddenParameters = c.overriddenParameters :=
      (congrArg ClassDefinition.overriddenParameters same :)
    rw [ClassDefinition.dependencies_eq, ClassDefinition.argumentDependencies,
      ClassDefinition.fieldDependencies, fieldless, args, hp, List.filterMap_nil,
      List.append_nil] at hj
    have edge : w.Edge g id k := ⟨_, present, .inl ⟨ps, hid ▸ hps, hj⟩⟩
    exact ⟨id, rfl, .single (edge.mono keeps)⟩
  | @field c _ fs _ answer hj =>
    obtain ⟨⟨c', hc', shape, -⟩, -⟩ := u.completing _ List.mem_cons_self c rfl
    have needs : w.Needs (.cls c) k := .inr ⟨fs, answer, hj⟩
    have edge : w.Edge g c.id k := ⟨_, hc', (needs_of_shape_eq shape).2 needs⟩
    exact ⟨c.id, rfl, .single (edge.mono keeps)⟩

lemma Step.subject_of_class? {g g' : Graph} {t : Task} {next : List Task}
    (h : w.Step g t g' next) (o : w.Original g) {t' : Task} (ht : t' ∈ next)
    {c : ClassDefinition} (hc : t'.class? = some c) : t.subject? = some c.id := by
  cases h.origin ht hc with
  | @begun id _ _ c₁ _ present same =>
    have hid : c.id = c₁.id := (congrArg ClassDefinition.id same :)
    rw [hid, show c₁.id = id from o.id_eq present]
    rfl
  | continued => rfl

/-- A task leads on to tasks about the same identifier, or about one that it needs. -/
lemma Step.subject_next {g g' : Graph} {t : Task} {rest next : List Task} (h : w.Step g t g' next)
    (o : w.Original g) (u : w.Underway g (t :: rest)) {t' : Task} (ht : t' ∈ next)
    {k : Identifier} (hk : t'.subject? = some k) :
    ∃ j, t.subject? = some j ∧ Relation.ReflGen (w.Edge g') j k := by
  cases t' with
  | request =>
    cases hk
    exact h.subject_of_request u ht
  | discoverFields | complete =>
    cases hk
    exact ⟨_, h.subject_of_class? o ht rfl, .refl⟩
  | check | count | fail => cases hk

/-- A task defines its own identifier, or one that this needs. -/
lemma Step.subject_of_defined {g g' : Graph} {t : Task} {next : List Task}
    (h : w.Step g t g' next) {k : Identifier} (absent : g.find? k = none) (hk : g'.contains k) :
    ∃ j, t.subject? = some j ∧ Relation.ReflGen (w.Edge g') j k := by
  obtain ⟨d, hd⟩ := Option.isSome_iff_exists.1 hk
  cases h.makes absent hd with
  | own | first => exact ⟨k, rfl, .refl⟩
  | @other id _ _ d₁ _ _ absent₁ expansion notClass mem =>
    have named : k ∈ d₁.namedDependencies := expansion.named _ mem
    exact ⟨id, rfl, .single (expansion.first.edge (expansion.find?_first absent₁) notClass named)⟩

lemma Rooted.subject {g : Graph} {ts : List Task} (r : w.Rooted roots g ts) {t : Task}
    (ht : t ∈ ts) {k : Identifier} (hk : t.subject? = some k) : w.Reached roots g k := by
  cases t with
  | request =>
    cases hk
    exact r.requested _ _ _ ht
  | discoverFields | complete =>
    cases hk
    exact r.completing _ ht _ rfl
  | check | count | fail => cases hk

/-- What is needed by the identifier of the task at hand is needed. -/
lemma Rooted.step {g g' : Graph} {t : Task} {rest : List Task} (r : w.Rooted roots g (t :: rest))
    (keeps : g.Keeps g') {k : Identifier}
    (h : ∃ j, t.subject? = some j ∧ Relation.ReflGen (w.Edge g') j k) : w.Reached roots g' k := by
  obtain ⟨j, hj, step⟩ := h
  exact ((r.subject List.mem_cons_self hj).mono keeps).trans step

lemma Step.rooted {g g' : Graph} {t : Task} {rest next : List Task} (h : w.Step g t g' next)
    (o : w.Original g) (u : w.Underway g (t :: rest)) (r : w.Rooted roots g (t :: rest)) :
    w.Rooted roots g' (next ++ rest) where
  requested k consumer placed hk := by
    rcases List.mem_append.1 hk with hk | hk
    · exact r.step h.keeps (h.subject_next o u hk rfl)
    · exact (r.requested _ _ _ (List.mem_cons_of_mem t hk)).mono h.keeps
  completing t' ht c hc := by
    rcases List.mem_append.1 ht with ht | ht
    · exact r.step h.keeps ⟨c.id, h.subject_of_class? o ht hc, .refl⟩
    · exact (r.completing _ (List.mem_cons_of_mem t ht) c hc).mono h.keeps
  defined k hk := by
    cases hd : g.find? k with
    | none => exact .inr (r.step h.keeps (h.subject_of_defined hd hk))
    | some d => exact (r.defined k (by simp [hd])).imp_right fun r => r.mono h.keeps

lemma rooted_of_visits {g h : Graph} {us : List Task} (ok : w.Yields roots g)
    (v : w.Visits roots h us) : w.Rooted roots h us :=
  Leads.invariant ok (P := w.Rooted roots) (rooted_start w roots) (fun before _ r step =>
    step.rooted (original_of_visits ok before) (underway_of_visits ok before) r) v

/-! ### The outcome of a run -/

/-- In the end a definition names what it needs. -/
lemma Yields.mem_namedDependencies {g : Graph} (ok : w.Yields roots g) {k j : Identifier}
    {d : Definition} (hk : g.find? k = some d) : j ∈ d.namedDependencies ↔ w.Needs d j := by
  cases d with
  | cls c => exact (ok.describes hk).2.mem_dependencies
  | autoloaded => exact absurd hk ok.original.ne_autoloaded
  | _ => exact Iff.rfl

/-- In the end the container, its interfaces and all that the entry points need are defined, and
nothing else is. -/
theorem Yields.contains_iff {g : Graph} (ok : w.Yields roots g) {k : Identifier} :
    g.contains k ↔ (seed w.config).contains k ∨ ∃ r ∈ roots,
      Relation.ReflTransGen (fun a b => ∃ d, g.find? a = some d ∧ b ∈ d.namedDependencies) r k := by
  constructor
  · intro hk
    refine ((rooted_of_visits ok ok.visits).defined k hk).imp_right ?_
    rintro ⟨r, hr, path⟩
    refine ⟨r, hr, Relation.ReflTransGen.mono ?_ _ _ path⟩
    rintro a b ⟨d, hd, hb⟩
    exact ⟨d, hd, (ok.mem_namedDependencies hd).2 hb⟩
  · rintro (hk | ⟨r, hr, path⟩)
    · obtain ⟨d, hd⟩ := Option.isSome_iff_exists.1 hk
      have start : (w.start roots).find? k = some d := (find?_start w roots k).trans hd
      have keeps : (w.start roots).Keeps g := ok.keeps .refl
      exact keeps.contains (by simp [start])
    · induction path with
      | refl => exact (ok.settled_root hr).1
      | tail _ step _ =>
        obtain ⟨d, hd, hb⟩ := step
        exact (ok.settled hd hb).1

end Injector.Wiring
