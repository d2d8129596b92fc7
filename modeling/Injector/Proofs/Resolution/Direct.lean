import Injector.Proofs.Resolution.Members
import Injector.Proofs.Resolution.Silence
import Injector.Proofs.Resolution.Termination

/-!
# Direct wirings

In a direct wiring the hints leave each identifier its own class, and all definitions go to files of
their own or none does. So an identifier is defined in the same way whenever it is asked for, and on
whichever way; what a resolution comes to depends only on what is asked for.
-/

namespace Injector

namespace Wiring

variable {w : Wiring} {placed : Bool} {roots roots' : List Identifier} {F F' g g' : Graph}
  {k x : Identifier} {us : List Task}

/-- Each hint leaves its identifier its own class, and `placed` tells for all entry points alike
whether what is reached from them goes to files of its own. -/
structure IsDirect (w : Wiring) (placed : Bool) : Prop where
  wildcards : w.hints.wildcards = []
  own : ∀ id b, w.hints.exact.find? id = some b → ∃ s, b = .byClass id s
  uniform : ∀ e ∈ w.entries.entries, w.placesBelow e = placed

/-! ### How definitions are made -/

/-- The settings of the hint that an identifier has for its own class. -/
def ownSettings (w : Wiring) (id : Identifier) : ClassSettings :=
  match w.hints.exact.find? id with
  | some (.byClass _ s) => s
  | _ => {}

/-- An identifier as a class of its own. -/
def ownClass (w : Wiring) (placed : Bool) (id : Identifier) : ClassDefinition :=
  classDefinition w.entries id (w.ownSettings id) (placed && !w.config.staysInline id)

/-- What an identifier is defined as. -/
def made (w : Wiring) (placed : Bool) (id : Identifier) : Definition :=
  ((seed w.config).find? id).getD (.cls (w.ownClass placed id))

lemma newborn_ownClass (w : Wiring) (placed : Bool) (id : Identifier) :
    w.Newborn id (.cls (w.ownClass placed id)) :=
  newborn_classDefinition w id _ _

/-- An identifier that stays in the main file is made for it already. -/
lemma inlined_ownClass (w : Wiring) (placed : Bool) (id : Identifier) :
    w.inlined [(id, .cls (w.ownClass placed id))] = [(id, .cls (w.ownClass placed id))] := by
  have kept : w.config.staysInline id →
      (Definition.cls (w.ownClass placed id)).clearPlacement = .cls (w.ownClass placed id) := by
    intro inline
    rw [ownClass, inline, Bool.not_true, Bool.and_false, clearPlacement_classDefinition]
  simp only [inlined, List.map_cons, List.map_nil]
  split
  · next inline => rw [kept inline]
  · rfl

/-- In a direct wiring an identifier becomes its own class. -/
lemma IsDirect.define_eq (direct : w.IsDirect placed) (absent : g.find? k = none)
    (consumer : Option Identifier) (b : Bool) :
    ∃ checks, w.define g k consumer b = .ok (g.insertIfAbsent (.cls (w.ownClass b k)),
      .request k consumer b :: checks) ∧ ∀ t ∈ checks, t = .check k consumer := by
  have hid : (Definition.cls (w.ownClass b k)).id = k := (newborn_ownClass w b k).id_eq
  have first : (g.insertIfAbsent (.cls (w.ownClass b k))).find? k =
      some (.cls (w.ownClass b k)) := by
    rw [Graph.find?_insertIfAbsent, if_pos hid.symm, absent]
    rfl
  cases found : w.hints.exact.find? k with
  | none =>
    have unhinted : w.hints.find? k = none := by simp [HintTable.find?, found, direct.wildcards]
    have settings : w.ownDefinition k (b && !w.config.staysInline k) = w.ownClass b k := by
      simp only [ownDefinition, ownClass, ownSettings, found]
    refine ⟨[], ?_, by simp⟩
    simp only [define, unhinted, settings]
    rfl
  | some binding =>
    obtain ⟨s, rfl⟩ := direct.own k binding found
    have hinted : w.hints.find? k = some (.exact (.byClass k s)) := by
      simp only [HintTable.find?, found]
    have definitions : (Hint.exact (.byClass k s)).definitions w.entries w.hints k
        (b && !w.config.staysInline k) = .ok [(k, .cls (w.ownClass b k))] := by
      simp [Hint.definitions, classBinding, ownClass, ownSettings, found]
    have inserted : g.insertAll [(k, .cls (w.ownClass b k))] =
        (g.insertIfAbsent (.cls (w.ownClass b k)), [k]) := by
      simp [Graph.insertAll, hid, absent]
    refine ⟨[.check k consumer], ?_, by simp⟩
    rw [define_of_hint g consumer hinted definitions, inlined_ownClass, inserted, hintedTasks,
      first]
    simp

/-! ### Graphs of direct wirings -/

/-- Every definition is what its identifier is defined as. -/
structure Formed (w : Wiring) (placed : Bool) (g : Graph) : Prop where
  seeded : ∀ k, (seed w.config).contains k → g.contains k
  as_made : ∀ k s, g.shape? k = some s → s = w.made placed k

/-- An identifier is defined as the container, as standing for it, or as its own class. -/
lemma made_cases (w : Wiring) (placed : Bool) (k : Identifier) :
    ((seed w.config).contains k ∧ ((∃ id, w.made placed k = .container id) ∨
        ∃ a, w.made placed k = .alias a ∧ a.isContainer)) ∨
      (seed w.config).find? k = none ∧ w.made placed k = .cls (w.ownClass placed k) := by
  simp only [made, Graph.contains_eq, find?_seed]
  split
  · exact .inl ⟨rfl, .inl ⟨_, rfl⟩⟩
  · split
    · exact .inl ⟨rfl, .inr ⟨_, rfl, rfl⟩⟩
    · exact .inr ⟨rfl, rfl⟩

lemma Formed.shape_eq (f : w.Formed placed g) {d : Definition} (hk : g.find? k = some d) :
    d.shape = w.made placed k :=
  f.as_made k _ (Graph.shape?_of_find? hk)

/-- No definition leads on to another one. -/
lemma Formed.forward?_eq_none (f : w.Formed placed g) (consumer : Identifier) :
    g.forward? consumer k = none := by
  cases hk : g.find? k with
  | none => simp [Graph.forward?, hk]
  | some d =>
    rw [Graph.forward?, hk, Option.bind_some, ← Definition.forward?_shape, f.shape_eq hk]
    rcases made_cases w placed k with ⟨-, ⟨id, eq⟩ | ⟨a, eq, container⟩⟩ | ⟨-, eq⟩
    · rw [eq]
      rfl
    · simp [eq, Definition.forward?, Definition.aliasTarget?, container]
    · rw [eq]
      rfl

lemma Formed.mem_chain_iff (f : w.Formed placed g) {consumer : Identifier} :
    x ∈ g.chain consumer k ↔ g.contains x ∧ x = k := by
  rw [Graph.mem_chain_iff]
  refine and_congr_right fun _ => ⟨fun path => ?_, fun eq => eq ▸ .refl⟩
  rcases Relation.ReflTransGen.cases_head path with rfl | ⟨next, step, -⟩
  · rfl
  · cases (f.forward?_eq_none consumer).symm.trans step

lemma Formed.checkBranch_eq (f : w.Formed placed g) (consumer : Option Identifier) :
    checkBranch g k consumer = .ok () := by
  cases hk : g.find? k with
  | none => simp [checkBranch, hk]
  | some d =>
    have shape := f.shape_eq hk
    cases d with
    | perConsumer =>
      rcases made_cases w placed k with ⟨-, ⟨id, eq⟩ | ⟨a, eq, -⟩⟩ | ⟨-, eq⟩ <;>
        cases shape.trans eq
    | cls | «alias» | container | autoloaded => simp [checkBranch, hk]

/-- A definition is there from the beginning or was made by resolution. -/
lemma Formed.original (f : w.Formed placed g) : w.Original g := by
  intro k s hk
  rw [f.as_made k s hk, made]
  cases hs : (seed w.config).find? k with
  | none => exact .inr (newborn_ownClass w placed k)
  | some d => exact .inl rfl

lemma Formed.keeps (f : w.Formed placed g) (f' : w.Formed placed g')
    (sub : ∀ k, g.contains k → g'.contains k) : g.Keeps g' := by
  intro k s hk
  obtain ⟨d, hd, -⟩ := Graph.exists_find?_of_shape? hk
  obtain ⟨d', hd'⟩ := Option.isSome_iff_exists.1 (sub k (by simp [hd]))
  rw [f.as_made k s hk, ← f'.shape_eq (show g'.find? k = some d' from hd')]
  exact Graph.shape?_of_find? hd'

lemma formed_start (w : Wiring) (placed : Bool) (roots : List Identifier) :
    w.Formed placed (w.start roots) where
  seeded k hk := by rwa [Graph.contains_eq, find?_start]
  as_made k s hk := by
    rw [Graph.shape?, find?_start] at hk
    rw [made, show (seed w.config).find? k = some s from (shape?_seed w.config k).symm.trans hk]
    rfl

/-! ### Resolutions of direct wirings -/

/-- A state of a resolution that may still succeed. -/
structure Sound (w : Wiring) (placed : Bool) (roots : List Identifier) (g : Graph)
    (ts : List Task) : Prop where
  formed : w.Formed placed g
  underway : w.Underway g ts
  rooted : w.Rooted roots g ts
  uniform : ∀ t ∈ ts, ∀ b, t.placed? = some b → b = placed
  clean : ∀ e, .fail e ∉ ts

lemma IsDirect.rootTask_eq (direct : w.IsDirect placed) {r : Identifier}
    (declared : w.entries.contains r) : w.rootTask r = .request r none placed := by
  obtain ⟨e, he⟩ := Option.isSome_iff_exists.1 declared
  rw [rootTask, he, Option.any_some, direct.uniform e (List.mem_of_find?_eq_some he)]

lemma IsDirect.sound_start (direct : w.IsDirect placed)
    (declared : ∀ r ∈ roots, w.entries.contains r) :
    w.Sound placed roots (w.start roots) (roots.map w.rootTask) where
  formed := formed_start w placed roots
  underway := underway_start w roots
  rooted := rooted_start w roots
  uniform t ht b hb := by
    obtain ⟨r, hr, rfl⟩ := List.mem_map.1 ht
    rw [direct.rootTask_eq (declared r hr)] at hb
    exact (Option.some.inj hb).symm
  clean e he := by
    obtain ⟨r, -, hr⟩ := List.mem_map.1 he
    cases hr

/-- A step of a direct wiring defines an identifier as what it is always defined as. -/
lemma IsDirect.formed_next (direct : w.IsDirect placed) {t : Task} {next : List Task}
    (f : w.Formed placed g) (uniform : ∀ b, t.placed? = some b → b = placed)
    (h : w.Step g t g' next) (done : w.perform g t = .ok (g', next)) : w.Formed placed g' where
  seeded k hk := h.keeps.contains (f.seeded k hk)
  as_made k s hk := by
    cases hd : g.find? k with
    | some d =>
      obtain ⟨d', hd', shape⟩ := h.keeps.exists_find? hd
      obtain ⟨d₁, hd₁, rfl⟩ := Graph.exists_find?_of_shape? hk
      cases hd'.symm.trans hd₁
      rw [shape, f.shape_eq hd]
    | none =>
      obtain ⟨d, hd', rfl⟩ := Graph.exists_find?_of_shape? hk
      have absent : (seed w.config).find? k = none := by
        by_contra hs
        have := f.seeded k (Option.isSome_iff_ne_none.2 hs)
        simp [hd] at this
      -- only a request defines anything, and only its own identifier
      obtain ⟨id, consumer, b, rfl, hid⟩ : ∃ id consumer b, t = .request id consumer b ∧
          g.find? id = none := by
        cases h.makes hd hd' with
        | own | first => exact ⟨_, _, _, rfl, hd⟩
        | other absent => exact ⟨_, _, _, rfl, absent⟩
      obtain rfl := uniform b rfl
      obtain ⟨checks, defined, -⟩ := direct.define_eq hid consumer b
      simp only [perform, hid, defined] at done
      cases done
      have new := w.newborn_ownClass b id
      rw [Graph.find?_insertIfAbsent, new.id_eq] at hd'
      split at hd'
      · next eq =>
        subst eq
        rw [hid] at hd'
        cases hd'
        rw [made, absent]
        exact new.shape_eq
      · cases hd.symm.trans hd'

lemma IsDirect.sound_next (direct : w.IsDirect placed) {t : Task} {rest next : List Task}
    (s : w.Sound placed roots g (t :: rest)) (done : w.perform g t = .ok (g', next))
    (clean : ∀ e, .fail e ∉ next) : w.Sound placed roots g' (next ++ rest) := by
  have h : w.Step g t g' next := .of_perform done clean
  have o := s.formed.original
  have uniform := s.uniform t List.mem_cons_self
  constructor
  · exact direct.formed_next s.formed uniform h done
  · exact h.underway o s.underway
  · exact h.rooted o s.underway s.rooted
  · intro t' ht b hb
    rcases List.mem_append.1 ht with ht | ht
    · exact uniform b (h.placed?_eq ht hb)
    · exact s.uniform t' (List.mem_cons_of_mem t ht) b hb
  · intro e he
    rcases List.mem_append.1 he with he | he
    · exact clean e he
    · exact s.clean e (List.mem_cons_of_mem t he)

lemma IsDirect.sound_of_visits (direct : w.IsDirect placed)
    (declared : ∀ r ∈ roots, w.entries.contains r) (ok : w.Yields roots F) {us : List Task}
    (v : w.Visits roots g us) : w.Sound placed roots g us := by
  induction v with
  | refl => exact direct.sound_start declared
  | step before done ih => exact direct.sound_next ih done (before.clean_of_perform ok done)

lemma IsDirect.formed (direct : w.IsDirect placed)
    (declared : ∀ r ∈ roots, w.entries.contains r) (ok : w.Yields roots F) : w.Formed placed F :=
  (direct.sound_of_visits declared ok ok.visits).formed

end Wiring

end Injector
