import Injector.Proofs.Resolution.Finite
import Injector.Proofs.Resolution.References

/-!
# Growing graphs

Resolution takes nothing back. A definition keeps its shape once it is there; the discovery of its
class only moves on, and its consumers stay and are counted no less. This holds from each state of
a resolution to all later ones, and of resolutions that fail as well.
-/

namespace Injector

/-! ### Growing definitions -/

/-- The stages of a discovery, in order. -/
def Progress.rank : Progress → Nat
  | .pending => 0
  | .inProgress => 1
  | .resolved => 2

/-- How the discovery of a class may move in one go. -/
inductive Progress.Moves : Progress → Progress → Prop
  | stay (p : Progress) : Moves p p
  | begin : Moves .pending .inProgress
  | finish : Moves .inProgress .resolved

/-- How far the dependencies of the class have been discovered that is built. -/
def Definition.progress? : Definition → Option Progress
  | .cls c => some c.progress
  | .autoloaded inner .. => inner.progress?
  | _ => none

/-- Consumers stay, are counted no less, and stay singletons. -/
def Referrers.Grow (r r' : Referrers) : Prop :=
  ∀ k x, r.find? k = some x →
    ∃ x', r'.find? k = some x' ∧ x.count ≤ x'.count ∧ (x.singleton → x'.singleton)

/-- A definition is the same but for what resolution fills in, and nothing of that is taken back. -/
structure Definition.Grows (d d' : Definition) : Prop where
  shape : d'.shape = d.shape
  progress : ∀ p, d.progress? = some p → ∃ p', d'.progress? = some p' ∧ p.rank ≤ p'.rank
  referrers : ∀ r, d.referrers? = some r → ∃ r', d'.referrers? = some r' ∧ r.Grow r'

/-- Every definition of the one graph is in the other, and has grown. -/
def Graph.Grows (g g' : Graph) : Prop :=
  ∀ k d, g.find? k = some d → ∃ d', g'.find? k = some d' ∧ d.Grows d'

namespace Referrers

lemma Grow.refl (r : Referrers) : r.Grow r :=
  fun _ x hx => ⟨x, hx, Nat.le_refl _, id⟩

lemma Grow.trans {r r' r'' : Referrers} (h : r.Grow r') (h' : r'.Grow r'') : r.Grow r'' := by
  intro k x hx
  obtain ⟨x', hx', count, singleton⟩ := h k x hx
  obtain ⟨x'', hx'', count', singleton'⟩ := h' k x' hx'
  exact ⟨x'', hx'', count.trans count', fun hs => singleton' (singleton hs)⟩

lemma grow_increase (r : Referrers) (consumer : Identifier) (singleton : Bool) :
    r.Grow (r.increase consumer singleton) := by
  intro k x hx
  rw [find?_increase]
  by_cases hk : k = consumer
  · subst hk
    rw [if_pos rfl, hx]
    refine ⟨_, rfl, Nat.le_succ _, fun hs => ?_⟩
    simp [hs]
  · rw [if_neg hk]
    exact ⟨x, hx, Nat.le_refl _, id⟩

end Referrers

namespace Definition

lemma progress?_addReferrer (consumer : Identifier) (singleton : Bool) (d : Definition) :
    (d.addReferrer consumer singleton).progress? = d.progress? := by
  induction d using Definition.id.induct <;> simp_all [addReferrer, progress?]

lemma Grows.refl (d : Definition) : d.Grows d where
  shape := rfl
  progress p hp := ⟨p, hp, Nat.le_refl _⟩
  referrers r hr := ⟨r, hr, .refl r⟩

lemma Grows.trans {d d' d'' : Definition} (h : d.Grows d') (h' : d'.Grows d'') : d.Grows d'' where
  shape := h'.shape.trans h.shape
  progress p hp := by
    obtain ⟨p', hp', le⟩ := h.progress p hp
    obtain ⟨p'', hp'', le'⟩ := h'.progress p' hp'
    exact ⟨p'', hp'', le.trans le'⟩
  referrers r hr := by
    obtain ⟨r', hr', grow⟩ := h.referrers r hr
    obtain ⟨r'', hr'', grow'⟩ := h'.referrers r' hr'
    exact ⟨r'', hr'', grow.trans grow'⟩

lemma grows_addReferrer (consumer : Identifier) (singleton : Bool) (d : Definition) :
    d.Grows (d.addReferrer consumer singleton) where
  shape := shape_addReferrer consumer singleton d
  progress p hp := by
    rw [progress?_addReferrer]
    exact ⟨p, hp, Nat.le_refl _⟩
  referrers r hr := by
    rw [referrers?_addReferrer, hr]
    exact ⟨_, rfl, r.grow_increase consumer singleton⟩

lemma grows_begun {c : ClassDefinition} (pending : c.progress = .pending) :
    (cls c).Grows (cls c).begun where
  shape := shape_begun (cls c)
  progress p hp := by
    cases hp
    rw [pending]
    exact ⟨_, rfl, Nat.zero_le _⟩
  referrers r hr := ⟨r, hr, .refl r⟩

lemma grows_completed (found : ClassDefinition) (d : Definition) :
    d.Grows (d.completed found) := by
  cases d with
  | cls c =>
    constructor
    · exact shape_completed found (cls c)
    · intro p hp
      refine ⟨_, rfl, ?_⟩
      cases p <;> simp [Progress.rank]
    · intro r hr
      exact ⟨r, hr, .refl r⟩
  | «alias» | container | perConsumer | autoloaded => exact .refl _

end Definition

/-! ### Growing graphs -/

namespace Graph

variable {g g' g'' : Graph}

lemma Grows.of_find? (h : ∀ k d, g.find? k = some d → g'.find? k = some d) : g.Grows g' :=
  fun k d hk => ⟨d, h k d hk, .refl d⟩

lemma Grows.refl (g : Graph) : g.Grows g := .of_find? fun _ _ h => h

lemma Grows.trans (h : g.Grows g') (h' : g'.Grows g'') : g.Grows g'' := by
  intro k d hk
  obtain ⟨d', hk', grows⟩ := h k d hk
  obtain ⟨d'', hk'', grows'⟩ := h' k d' hk'
  exact ⟨d'', hk'', grows.trans grows'⟩

lemma Grows.adjust {j : Identifier} {f : Definition → Definition}
    (h : ∀ d, g.find? j = some d → d.Grows (f d)) : g.Grows (g.adjust j f) := by
  intro k d hk
  rw [find?_adjust, hk]
  by_cases hj : k = j
  · subst hj
    rw [if_pos rfl]
    exact ⟨f d, rfl, h d hk⟩
  · rw [if_neg hj]
    exact ⟨d, rfl, .refl d⟩

lemma grows_recordReference (g : Graph) (consumer : Identifier) (singleton : Bool)
    (j : Identifier) : g.Grows (g.recordReference consumer singleton j) := by
  intro k d hk
  rw [find?_recordReference, hk]
  by_cases hc : k ∈ g.chain consumer j
  · rw [if_pos hc]
    exact ⟨_, rfl, d.grows_addReferrer consumer singleton⟩
  · rw [if_neg hc]
    exact ⟨d, rfl, .refl d⟩

end Graph

/-! ### Growing in a resolution -/

namespace Wiring

variable {w : Wiring} {roots : List Identifier} {g g' : Graph} {t : Task} {next : List Task}

lemma IsKeyed.id_eq (keyed : IsKeyed g) {k : Identifier} {d : Definition}
    (hk : g.find? k = some d) : d.id = k := by
  rw [← Definition.id_shape]
  exact keyed k _ (Graph.shape?_of_find? hk)

lemma isKeyed_of_visits {us : List Task} (v : w.Visits roots g us) : IsKeyed g :=
  Leads.preserves v (P := fun g _ => IsKeyed g) (isKeyed_start w roots) fun keyed h => keyed.perform h

/-- The discovery of a pending class leaves a graph that has grown. -/
lemma grows_adjust_begun (keyed : IsKeyed g) {k : Identifier} {c : ClassDefinition}
    (present : g.find? k = some (.cls c)) (pending : c.progress = .pending) :
    g.Grows (g.adjust c.id Definition.begun) := by
  obtain rfl : c.id = k := keyed.id_eq present
  apply Graph.Grows.adjust
  intro d hd
  cases present.symm.trans hd
  exact Definition.grows_begun pending

/-- With each task that is done a graph grows, also if the resolution is going to fail. -/
lemma grows_of_perform (keyed : IsKeyed g) (h : w.perform g t = .ok (g', next)) : g.Grows g' := by
  cases t with
  | request id consumer placed =>
    simp only [perform] at h
    split at h
    · exact .of_find? (kept_of_define h).1
    · next c present =>
      split at h
      · next pending =>
        obtain ⟨_, -, h⟩ := bind_eq_ok.1 h
        obtain ⟨_, -, h⟩ := bind_eq_ok.1 h
        cases h
        exact grows_adjust_begun keyed present pending
      · cases h
        exact .refl g
    · cases h
      exact .refl g
  | check id consumer =>
    obtain ⟨_, -, h⟩ := bind_eq_ok.1 h
    cases h
    exact .refl g
  | count id consumer singleton =>
    cases h
    exact g.grows_recordReference consumer singleton id
  | discoverFields c placed =>
    obtain ⟨_, -, h⟩ := bind_eq_ok.1 h
    cases h
    exact .refl g
  | complete c =>
    cases h
    exact .adjust fun d _ => d.grows_completed c
  | fail e => cases h

/-- From one state to a later one a graph grows. -/
lemma grows_of_leads {ts us : List Task} (keyed : IsKeyed g) (l : w.Leads g ts g' us) :
    g.Grows g' := by
  refine (l.preserves (P := fun h _ => IsKeyed h ∧ g.Grows h) ⟨keyed, .refl g⟩ ?_).2
  rintro h h' t rest next ⟨keyed, grows⟩ done
  exact ⟨keyed.perform done, grows.trans (grows_of_perform keyed done)⟩

end Wiring

end Injector
