import Injector.Proofs.Container.Complete
import Injector.Proofs.Container.Proxies

/-!
# What goes to files of its own

Whether the body of a definition goes to a file of its own is decided when the definition is made,
by the entry point that the resolution has come from then, and by the identifiers that stay in the
main file. So what goes to files is needed by an entry point that asks for it; and where all entry
points ask for it everything goes to files that can and may.
-/

namespace Injector

/-! ### Definitions -/

namespace Definition

/-- Whether the body of a definition can go to a file of its own: that of a class or of an alias, but
not of one that stands for the container. -/
def isMovable : Definition → Bool
  | .cls _ => true
  | .alias a => !a.isContainer
  | _ => false

lemma isMovable_iff {d : Definition} :
    d.isMovable ↔ (∃ c, d = .cls c) ∨ ∃ a, d = .alias a ∧ a.isContainer = false := by
  cases d <;> simp [isMovable]

@[simp] lemma isFileBased_shape (d : Definition) : d.shape.isFileBased = d.isFileBased := by
  cases d <;> rfl

@[simp] lemma isMovable_shape (d : Definition) : d.shape.isMovable = d.isMovable := by
  cases d <;> rfl

@[simp] lemma isFileBased_clearPlacement (d : Definition) :
    d.clearPlacement.isFileBased = false := by
  cases d <;> rfl

@[simp] lemma isMovable_clearPlacement (d : Definition) :
    d.clearPlacement.isMovable = d.isMovable := by
  cases d <;> rfl

end Definition

namespace Wiring

variable {w : Wiring} {roots : List Identifier}

/-! ### How a definition is placed when it is made -/

@[simp] lemma fileBased_classDefinition (entries : EntryPoints) (cls : Identifier)
    (s : ClassSettings) (placed : Bool) :
    (classDefinition entries cls s placed).fileBased = placed := by
  simp only [classDefinition]
  cases entries.find? cls <;> rfl

/-- A class that a hint names is placed as the hint is. -/
lemma isFileBased_of_implementation? {cls : Identifier} {s : ClassSettings} {placed : Bool}
    {e : Identifier × Definition} (h : implementation? w.entries w.hints cls s placed = some e) :
    e.2.isFileBased = (placed && e.2.isMovable) := by
  obtain ⟨-, s', rfl⟩ := exists_of_implementation? h
  simp [Definition.isFileBased, Definition.isMovable]

lemma isFileBased_of_mem_classBinding {id cls : Identifier} {s : ClassSettings} {placed : Bool}
    {e : Identifier × Definition} (h : e ∈ classBinding w.entries w.hints id cls s placed) :
    e.2.isFileBased = (placed && e.2.isMovable) := by
  simp only [classBinding] at h
  split at h
  · obtain rfl := List.mem_singleton.1 h
    simp [Definition.isFileBased, Definition.isMovable]
  · rcases List.mem_cons.1 h with rfl | h
    · simp [Definition.isFileBased, Definition.isMovable]
    · exact isFileBased_of_implementation? (Option.mem_toList.1 h)

/-- All that a hint makes is placed alike, as far as it can be. -/
lemma isFileBased_of_mem_definitions {id : Identifier} {placed : Bool} {hint : Hint}
    {ds : List (Identifier × Definition)}
    (h : hint.definitions w.entries w.hints id placed = .ok ds) {e : Identifier × Definition}
    (he : e ∈ ds) : e.2.isFileBased = (placed && e.2.isMovable) := by
  cases hint with
  | exact binding =>
    cases binding with
    | byClass cls s =>
      cases h
      exact isFileBased_of_mem_classBinding he
    | perConsumer t =>
      cases h
      rcases List.mem_cons.1 he with rfl | he
      · simp [Definition.isFileBased, Definition.isMovable]
      · obtain ⟨cls, -, hi⟩ := List.mem_filterMap.1 he
        exact isFileBased_of_implementation? hi
  | wildcard hint =>
    simp only [Hint.definitions] at h
    split at h
    · cases h
      exact isFileBased_of_mem_classBinding he
    · cases h

/-- A new definition goes to a file if the request says so, unless the identifier that is asked for
or its own stays in the main file, or it has no body for a file. -/
lemma isFileBased_of_define {g g' : Graph} {id k : Identifier} {consumer : Option Identifier}
    {placed : Bool} {next : List Task} {d : Definition}
    (h : w.define g id consumer placed = .ok (g', next)) (absent : g.find? k = none)
    (hk : g'.find? k = some d) :
    d.isFileBased =
      (placed && !w.config.staysInline id && !w.config.staysInline k && d.isMovable) := by
  rcases definitions_of_define h with ⟨hint, ds, found, hd, rfl, -⟩ | ⟨-, rfl, -⟩
  · obtain ⟨d₁, rest, eq, unfolds⟩ := unfolds_definitions found hd
    have keyed : ∀ e ∈ w.inlined ds, e.2.id = e.1 := by
      rw [eq]
      exact unfolds.keyed
    rw [Graph.find?_insertAll g keyed, absent, Option.none_or] at hk
    obtain ⟨⟨j, d₀⟩, mem, made⟩ := List.mem_map.1 (mem_of_lookup hk)
    obtain ⟨rfl, rfl⟩ := Prod.ext_iff.1 made
    have placedAlike := isFileBased_of_mem_definitions hd mem
    dsimp only at placedAlike ⊢
    split
    · next stays => simp [stays]
    · next moves => simp [placedAlike, moves]
  · have hid : (w.ownDefinition id (placed && !w.config.staysInline id)).id = id :=
      (newborn_classDefinition w id {} _).id_eq
    rw [Graph.find?_insertIfAbsent, absent] at hk
    split at hk
    · next at_id =>
      obtain rfl : k = id := at_id.trans hid
      cases hk
      simp [Definition.isFileBased, Definition.isMovable, ownDefinition]
    · cases hk

/-- No hint leads from an identifier that stays in the main file to another one. -/
def KeepsInline (w : Wiring) : Prop :=
  ∀ k hint, w.config.staysInline k → w.hints.find? k = some hint → ∀ j ∈ hint.targets k, j = k

/-- What a request for an identifier that stays in the main file defines is that identifier. -/
lemma KeepsInline.eq_of_define (keeps : w.KeepsInline) {g g' : Graph} {id k : Identifier}
    {consumer : Option Identifier} {placed : Bool} {next : List Task}
    (h : w.define g id consumer placed = .ok (g', next)) (absent : g.find? k = none)
    (hk : g'.contains k) (stays : w.config.staysInline id) : k = id := by
  rcases cases_of_define h with ⟨hint, d, rest, unfolds, rfl, -⟩ | ⟨c, new, rfl, -⟩
  · rw [Graph.contains_eq, Graph.find?_insertAll g unfolds.keyed, absent, Option.none_or] at hk
    obtain ⟨d', hd'⟩ := Option.isSome_iff_exists.1 hk
    rcases List.mem_cons.1 (mem_of_lookup hd') with eq | mem
    · exact congrArg Prod.fst eq
    · exact keeps id hint stays unfolds.found k (unfolds.targets k (unfolds.named _ mem))
  · rw [Graph.contains_eq, Graph.find?_insertIfAbsent, absent, new.id_eq] at hk
    split at hk
    · next eq => exact eq
    · cases hk

/-! ### Runs -/

/-- Whether an entry point asks for what it needs to go to files of its own. -/
def placesFrom (w : Wiring) (r : Identifier) : Bool := (w.entries.find? r).any w.placesBelow

/-- At first nothing goes to files, nor could it. -/
lemma isMovable_of_start {k : Identifier} {s : Definition} (hk : (w.start roots).shape? k = some s) :
    s.isFileBased = false ∧ s.isMovable = false := by
  rw [Graph.shape?, find?_start] at hk
  have hk : (seed w.config).find? k = some s := (shape?_seed w.config k).symm.trans hk
  rw [find?_seed] at hk
  split at hk
  · cases hk
    exact ⟨rfl, rfl⟩
  · split at hk
    · cases hk
      exact ⟨rfl, rfl⟩
    · cases hk

/-- A task makes a definition by a request for something that has none. -/
lemma define_of_perform {g g' : Graph} {t : Task} {next : List Task}
    (h : w.perform g t = .ok (g', next)) {k : Identifier} (absent : g.find? k = none)
    (made : g'.contains k) : ∃ id consumer placed, t = .request id consumer placed ∧
      w.define g id consumer placed = .ok (g', next) := by
  rcases shape?_of_perform h with ⟨id, consumer, placed, rfl, -, defined⟩ | same
  · exact ⟨id, consumer, placed, rfl, defined⟩
  · have shape := same k
    rw [Graph.shape?, Graph.shape?, absent] at shape
    rw [Graph.contains_eq, Option.map_eq_none_iff.1 shape] at made
    cases made

/-- What may still go to files, and what does, is needed by an entry point that asks for it. -/
structure PlacedFrom (w : Wiring) (roots : List Identifier) (g : Graph) (ts : List Task) :
    Prop where
  asked : ∀ t ∈ ts, t.placed? = some true → ∀ k, t.subject? = some k →
    w.Reached (roots.filter w.placesFrom) g k
  made : ∀ k s, g.shape? k = some s → s.isFileBased →
    s.isMovable ∧ w.config.staysInline k = false ∧ w.Reached (roots.filter w.placesFrom) g k

lemma placedFrom_start (w : Wiring) (roots : List Identifier) :
    w.PlacedFrom roots (w.start roots) (roots.map w.rootTask) where
  asked t ht placed k hk := by
    obtain ⟨r, hr, rfl⟩ := List.mem_map.1 ht
    cases hk
    exact ⟨k, List.mem_filter.2 ⟨hr, Option.some.inj placed⟩, .refl⟩
  made k s hk placed := by
    rw [(isMovable_of_start hk).1] at placed
    cases placed

lemma PlacedFrom.next {g g' : Graph} {t : Task} {rest next : List Task}
    (p : w.PlacedFrom roots g (t :: rest)) (o : w.Original g) (u : w.Underway g (t :: rest))
    (done : w.perform g t = .ok (g', next)) (step : w.Step g t g' next) :
    w.PlacedFrom roots g' (next ++ rest) := by
  have keeps := step.keeps
  have goesOn : ∀ k, t.placed? = some true →
      (∃ j, t.subject? = some j ∧ Relation.ReflGen (w.Edge g') j k) →
      w.Reached (roots.filter w.placesFrom) g' k := by
    rintro k placed ⟨j, hj, way⟩
    exact ((p.asked t List.mem_cons_self placed j hj).mono keeps).trans way
  constructor
  case asked =>
    intro t' ht placed k hk
    rcases List.mem_append.1 ht with ht | ht
    · exact goesOn k (step.placed?_eq ht placed) (step.subject_next o u ht hk)
    · exact (p.asked t' (List.mem_cons_of_mem t ht) placed k hk).mono keeps
  case made =>
    intro k s hk placed
    cases before : g.find? k with
    | some d =>
      have shape : g.shape? k = some d.shape := Graph.shape?_of_find? before
      obtain rfl : d.shape = s := Option.some.inj ((keeps k _ shape).symm.trans hk)
      obtain ⟨movable, moves, needed⟩ := p.made k _ shape placed
      exact ⟨movable, moves, needed.mono keeps⟩
    | none =>
      obtain ⟨d, hd, rfl⟩ := Graph.exists_find?_of_shape? hk
      have made : g'.contains k := by simp [hd]
      obtain ⟨id, consumer, placed', rfl, defined⟩ := define_of_perform done before made
      rw [Definition.isFileBased_shape, isFileBased_of_define defined before hd] at placed
      simp only [Bool.and_eq_true, Bool.not_eq_true'] at placed
      obtain ⟨⟨⟨rfl, -⟩, moves⟩, movable⟩ := placed
      exact ⟨by rwa [Definition.isMovable_shape], moves,
        goesOn k rfl (step.subject_of_defined before made)⟩

lemma placedFrom_of_visits {g h : Graph} {us : List Task} (ok : w.Yields roots g)
    (v : w.Visits roots h us) : w.PlacedFrom roots h us := by
  induction v with
  | refl => exact placedFrom_start w roots
  | step before done ih =>
    exact ih.next (original_of_visits ok before) (underway_of_visits ok before) done
      (before.step_of_perform ok done)

/-- Everything goes to files, as far as it can and may. -/
structure PlacesAll (w : Wiring) (g : Graph) (ts : List Task) : Prop where
  asked : ∀ t ∈ ts, ∀ b, t.placed? = some b → b = true
  made : ∀ k s, g.shape? k = some s → s.isMovable → w.config.staysInline k = false → s.isFileBased

lemma placesAll_start (all : ∀ r ∈ roots, w.placesFrom r) :
    w.PlacesAll (w.start roots) (roots.map w.rootTask) where
  asked t ht b hb := by
    obtain ⟨r, hr, rfl⟩ := List.mem_map.1 ht
    exact (Option.some.inj hb).symm.trans (all r hr)
  made k s hk movable := by
    rw [(isMovable_of_start hk).2] at movable
    cases movable

lemma PlacesAll.next {g g' : Graph} {t : Task} {rest next : List Task}
    (p : w.PlacesAll g (t :: rest)) (keepsInline : w.KeepsInline)
    (done : w.perform g t = .ok (g', next)) (step : w.Step g t g' next) :
    w.PlacesAll g' (next ++ rest) where
  asked t' ht b hb := by
    rcases List.mem_append.1 ht with ht | ht
    · exact p.asked t List.mem_cons_self b (step.placed?_eq ht hb)
    · exact p.asked t' (List.mem_cons_of_mem t ht) b hb
  made k s hk movable moves := by
    cases before : g.find? k with
    | some d =>
      have shape : g.shape? k = some d.shape := Graph.shape?_of_find? before
      obtain rfl : d.shape = s := Option.some.inj ((step.keeps k _ shape).symm.trans hk)
      exact p.made k _ shape movable moves
    | none =>
      obtain ⟨d, hd, rfl⟩ := Graph.exists_find?_of_shape? hk
      have made : g'.contains k := by simp [hd]
      obtain ⟨id, consumer, placed, rfl, defined⟩ := define_of_perform done before made
      -- an identifier that stays in the main file defines nothing but itself
      have asker : w.config.staysInline id = false := by
        by_contra stays
        obtain rfl := keepsInline.eq_of_define defined before made (by simpa using stays)
        exact stays moves
      have placed : placed = true := p.asked _ List.mem_cons_self placed rfl
      rw [Definition.isMovable_shape] at movable
      rw [Definition.isFileBased_shape, isFileBased_of_define defined before hd]
      simp [placed, asker, moves, movable]

lemma placesAll_of_visits {g h : Graph} {us : List Task} (ok : w.Yields roots g)
    (keepsInline : w.KeepsInline) (all : ∀ r ∈ roots, w.placesFrom r)
    (v : w.Visits roots h us) : w.PlacesAll h us := by
  induction v with
  | refl => exact placesAll_start all
  | step before done ih => exact ih.next keepsInline done (before.step_of_perform ok done)

/-! ### Resolved graphs -/

/-- Which definitions of a graph go to files of their own. -/
structure PlacesExactly (w : Wiring) (roots : List Identifier) (g : Graph) : Prop where
  runtime : w.mode = .runtime → ∀ k d, g.find? k = some d → d.isFileBased = false
  /-- Only a class or an alias does that is excluded nowhere, and that is needed by an entry point
  which asks for it, if the configuration does not. -/
  only : ∀ k d, g.find? k = some d → d.isFileBased →
    ((∃ c, d.core = .cls c) ∨ ∃ a, d.core = .alias a ∧ a.isContainer = false) ∧
      k ∉ w.config.autoload.excluded ∧ k ∉ w.config.files.excluded ∧
      ∃ r ∈ roots, ∃ e, w.entries.find? r = some e ∧ (w.config.files.enabled ∨ e.fileBased) ∧
        Relation.ReflTransGen g.DependsOn r k
  /-- If the configuration asks for it, every class and every such alias does, provided that no hint
  leads from an excluded identifier to another one. -/
  all : w.mode = .compile → w.config.files.enabled → w.KeepsInline →
    ∀ k d, g.find? k = some d →
      ((∃ c, d.core = .cls c) ∨ ∃ a, d.core = .alias a ∧ a.isContainer = false) →
      k ∉ w.config.autoload.excluded → k ∉ w.config.files.excluded → d.isFileBased

lemma staysInline_eq_false_iff {k : Identifier} : w.config.staysInline k = false ↔
    k ∉ w.config.autoload.excluded ∧ k ∉ w.config.files.excluded := by
  simp [Config.staysInline]

/-- Nothing is placed for a look-up, and otherwise by an entry point or the configuration. -/
lemma placesFrom_iff {r : Identifier} : w.placesFrom r ↔ w.mode = .compile ∧
    ∃ e, w.entries.find? r = some e ∧ (w.config.files.enabled ∨ e.fileBased) := by
  rw [placesFrom, Option.any_eq_true]
  cases hm : w.mode with
  | compile => simp [placesBelow, hm, EntryPoint.isFileBased, or_comm]
  | runtime => simp [placesBelow, hm]

/-- What is needed in the end is depended on, proxies or not. -/
lemma Yields.dependsOn_of_reached {g : Graph} (yields : w.Yields roots g) (always : List String)
    {starts : List Identifier} {k : Identifier} (h : w.Reached starts g k) :
    ∃ r ∈ starts, Relation.ReflTransGen (w.wrapEntries always g).DependsOn r k := by
  obtain ⟨r, hr, path⟩ := h
  refine ⟨r, hr, Relation.ReflTransGen.mono ?_ _ _ path⟩
  rintro a b ⟨d, hd, needs⟩
  exact (dependsOn_wrapEntries w always).2 ⟨d, hd, (yields.mem_namedDependencies hd).2 needs⟩

section Yields

variable {g : Graph} (yields : w.Yields roots g) {always : List String} {k : Identifier}
  {d : Definition} (hk : (w.wrapEntries always g).find? k = some d)
include yields hk

/-- A proxy goes to a file when the definition that it stands before does. -/
lemma Yields.exists_shape_core :
    ∃ s, g.shape? k = some s ∧ s.isFileBased = d.isFileBased ∧ s.isMovable = d.core.isMovable := by
  refine ⟨d.core.shape, Graph.shape?_of_find? (yields.find?_core hk), ?_, ?_⟩
  · rw [Definition.isFileBased_shape, yields.isFileBased_core hk]
  · rw [Definition.isMovable_shape]

lemma Yields.reached_of_isFileBased (goes : d.isFileBased) :
    d.core.isMovable ∧ w.config.staysInline k = false ∧
      w.Reached (roots.filter w.placesFrom) g k := by
  obtain ⟨s, before, placed, movable⟩ := yields.exists_shape_core hk
  rw [← movable]
  exact (placedFrom_of_visits yields yields.visits).made k s before (placed.trans goes)

lemma Yields.isFileBased_of_placesFrom (keepsInline : w.KeepsInline)
    (all : ∀ r ∈ roots, w.placesFrom r) (movable : d.core.isMovable)
    (moves : w.config.staysInline k = false) : d.isFileBased := by
  obtain ⟨s, before, placed, same⟩ := yields.exists_shape_core hk
  rw [← placed]
  exact (placesAll_of_visits yields keepsInline all yields.visits).made k s before
    (same.trans movable) moves

end Yields

/-- A graph is asked for entry points that are declared. -/
lemma contains_of_mem_rootsFor {entry : Option Identifier} {g : Graph}
    (h : w.resolveFor entry = .ok g) : ∀ r ∈ w.rootsFor entry, w.entries.contains r := by
  intro r hr
  cases entry with
  | none => exact EntryPoints.mem_identifiers.1 hr
  | some id =>
    obtain rfl := List.mem_singleton.1 hr
    simp only [resolveFor, resolveOne] at h
    split at h
    · next declared => exact declared
    · cases h

/-- What goes to files of its own in a resolved graph is what the entry points and the configuration
say. -/
theorem placesExactly_of_resolveFor {entry : Option Identifier} {g : Graph}
    (h : w.resolveFor entry = .ok g) : w.PlacesExactly (w.rootsFor entry) g := by
  have declared := contains_of_mem_rootsFor h
  obtain ⟨g₀, always, yields, rfl⟩ := exists_of_resolveFor h
  constructor
  case runtime =>
    intro lookup k d hk
    by_contra goes
    obtain ⟨-, -, r, hr, -⟩ := yields.reached_of_isFileBased hk (by simpa using goes)
    obtain ⟨compiles, -⟩ := placesFrom_iff.1 (List.mem_filter.1 hr).2
    rw [lookup] at compiles
    cases compiles
  case only =>
    intro k d hk goes
    obtain ⟨movable, moves, needed⟩ := yields.reached_of_isFileBased hk goes
    obtain ⟨unwrapped, unplaced⟩ := staysInline_eq_false_iff.1 moves
    obtain ⟨r, hr, path⟩ := yields.dependsOn_of_reached always needed
    obtain ⟨hr, places⟩ := List.mem_filter.1 hr
    obtain ⟨-, e, he, asks⟩ := placesFrom_iff.1 places
    exact ⟨Definition.isMovable_iff.1 movable, unwrapped, unplaced, r, hr, e, he, asks, path⟩
  case all =>
    intro compiles enabled keepsInline k d hk movable unwrapped unplaced
    have places : ∀ r ∈ w.rootsFor entry, w.placesFrom r := by
      intro r hr
      obtain ⟨e, he⟩ := Option.isSome_iff_exists.1 (declared r hr)
      exact placesFrom_iff.2 ⟨compiles, e, he, .inl enabled⟩
    exact yields.isFileBased_of_placesFrom hk keepsInline places
      (Definition.isMovable_iff.2 movable) (staysInline_eq_false_iff.2 ⟨unwrapped, unplaced⟩)

/-- A press behind a proxy that needs ink, a plate, which is a stone for every consumer, and paper,
which is a sheet. The ink stays in the main file; its hint only says how it is built. -/
def pressWiring : Wiring where
  config := { files := { enabled := true, excluded := ["Ink"] } }
  provider := Metadata.provider <| .ofList
    [("Press",
      { parameters := [{ name := "ink", type := some "Ink" },
          { name := "plate", type := some "Plate" }, { name := "paper", type := some "Paper" }] }),
      ("Ink", { parameters := [{ name := "pigment", type := some "Pigment" }] }), ("Pigment", {}),
      ("Stone", { parameters := [{ name := "container", type := some "Container" }] }), ("Sheet", {})]
  mode := .compile
  entries := ⟨[{ ids := ["Press"], autoload := true }]⟩
  hints := ⟨.ofList [("Ink", .byClass "Ink" { scope := .prototype }),
    ("Plate", .perConsumer { default := some "Stone" }), ("Paper", .byClass "Sheet" {})], []⟩

/-- All of the press goes to files but the ink and the choice of the plate. -/
theorem placesExactly_pressWiring :
    ∃ g, pressWiring.resolveFor none = .ok g ∧
      g.identifiers.filter (fun k => (g.find? k).any (·.isFileBased)) =
        ["Paper", "Pigment", "Press", "Sheet", "Stone"] ∧
      g.identifiers.filter (fun k => !(g.find? k).any (·.isFileBased)) =
        ["Container", "Ink", "Plate"] ∧
      pressWiring.KeepsInline ∧ pressWiring.PlacesExactly ["Press"] g := by
  have resolves : pressWiring.passesWithin 60 ["Press"] (fun g =>
      decide (g.identifiers.filter (fun k => (g.find? k).any (·.isFileBased)) =
          ["Paper", "Pigment", "Press", "Sheet", "Stone"])
        && decide (g.identifiers.filter (fun k => !(g.find? k).any (·.isFileBased)) =
          ["Container", "Ink", "Plate"])) = true := by
    decide +kernel
  obtain ⟨g, hg, passes⟩ := exists_of_passesWithin resolves
  simp only [Bool.and_eq_true, decide_eq_true_eq] at passes
  obtain ⟨moved, kept⟩ := passes
  have keepsInline : pressWiring.KeepsInline := by
    intro k hint stays found j hj
    obtain rfl : k = "Ink" := by simpa [pressWiring, Config.staysInline] using stays
    have own : pressWiring.hints.find? "Ink" =
        some (.exact (.byClass "Ink" { scope := .prototype })) := by
      decide +kernel
    cases own.symm.trans found
    exact List.mem_singleton.1 hj
  have h : pressWiring.resolveFor none = .ok g := hg
  exact ⟨g, h, moved, kept, keepsInline, placesExactly_of_resolveFor h⟩

end Wiring

end Injector
