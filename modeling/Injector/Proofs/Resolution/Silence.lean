import Injector.Proofs.Resolution.References

/-!
# Consumers that count no more

References are counted for classes, and for entry points that are asked for before anything else
asks for them. Any other consumer is silent: what is recorded of it stays as it is.
-/

namespace Injector.Wiring

variable {w : Wiring} {roots : List Identifier} {F g h : Graph} {a x : Identifier}

/-! ### Consumers that have counted all their references -/

/-- Nothing on an agenda will count a reference of a consumer. -/
structure Silent (g : Graph) (ts : List Task) (a : Identifier) : Prop where
  known : g.contains a ∨ ∀ placed, .request a none placed ∉ ts
  uncounted : ∀ j s, .count j a s ∉ ts

/-- Only for an entry point itself something is asked for without a consumer. -/
lemma Step.eq_request_none {g' : Graph} {t : Task} {next : List Task} (h : w.Step g t g' next)
    {k : Identifier} {placed : Bool} (hk : .request k none placed ∈ next) :
    t = .request k none placed := by
  cases h.brings hk with
  | again => rfl

/-- References are counted for classes, and for entry points that are asked for first. -/
lemma Step.cases_of_count {g' : Graph} {t : Task} {rest next : List Task} (h : w.Step g t g' next)
    (o : w.Original g) (u : w.Underway g (t :: rest)) {j : Identifier} {s : Bool}
    (hj : .count j a s ∈ next) :
    (∃ c, g.find? a = some (.cls c)) ∨
      g.find? a = none ∧ ∃ placed, t = .request a none placed := by
  cases h.brings hj with
  | direct absent => exact .inr ⟨absent, _, rfl⟩
  | @argumentCount id _ _ _ c present =>
    exact .inl ⟨c, by rw [show c.id = id from o.id_eq present, present]⟩
  | @fieldCount c =>
    obtain ⟨⟨c', hc', -⟩, -⟩ := u.completing _ List.mem_cons_self c rfl
    exact .inl ⟨c', hc'⟩

/-- What is no class and has been asked for, if it ever is, stays silent. -/
lemma Step.silent {g' : Graph} {t : Task} {rest us next : List Task} (h : w.Step g t g' next)
    (o : w.Original g) (u : w.Underway g (t :: us)) (notClass : ∀ c, g.find? a ≠ some (.cls c))
    (s : Silent g (t :: rest) a) : Silent g' (next ++ rest) a where
  known := by
    rcases s.known with ha | unasked
    · exact .inl (h.keeps.contains ha)
    · right
      intro placed hm
      rcases List.mem_append.1 hm with hm | hm
      · exact unasked placed (h.eq_request_none hm ▸ List.mem_cons_self)
      · exact unasked placed (List.mem_cons_of_mem t hm)
  uncounted j single hm := by
    rcases List.mem_append.1 hm with hm | hm
    · rcases h.cases_of_count o u hm with ⟨c, hc⟩ | ⟨absent, placed, rfl⟩
      · exact notClass c hc
      · rcases s.known with ha | unasked
        · simp [absent] at ha
        · exact unasked placed List.mem_cons_self
    · exact s.uncounted j single (List.mem_cons_of_mem t hm)

lemma not_count_mem_rootTasks {ks : List Identifier} (j k : Identifier) (s : Bool) :
    .count j k s ∉ ks.map w.rootTask := by
  intro hm
  obtain ⟨r, -, hr⟩ := List.mem_map.1 hm
  cases hr

/-- While a part of an agenda is done that is silent about a consumer, its references stay. -/
lemma Yields.referrer?_eq_of_silent (ok : w.Yields roots F)
    (notClass : ∀ c, F.find? a ≠ some (.cls c)) {ts rest : List Task}
    (v : w.Visits roots g (ts ++ rest)) (l : w.Leads g ts h []) (s : Silent g ts a) :
    h.referrer? x a = g.referrer? x a := by
  have outcome : w.run g ts = some (.ok h) := l.run_eq.symm.trans (run_nil w h)
  refine (Leads.invariant outcome
    (P := fun h us => Silent h us a ∧ h.referrer? x a = g.referrer? x a) ⟨s, rfl⟩ ?_ l).2
  rintro h₁ h₂ t us next before - ⟨s, same⟩ step
  have visits : w.Visits roots h₁ (t :: us ++ rest) := v.trans (before.append rest)
  have o := original_of_visits ok visits
  have notClass : ∀ c, h₁.find? a ≠ some (.cls c) := by
    intro c hc
    obtain ⟨c', hc', -⟩ := (ok.keeps visits).find?_cls hc
    exact notClass c' hc'
  refine ⟨step.silent o (underway_of_visits ok visits) notClass s, ?_⟩
  rw [← same]
  by_cases count : ∃ j k s, t = .count j k s
  · obtain ⟨j, k, single, rfl⟩ := count
    have hk : a ≠ k := by
      rintro rfl
      exact s.uncounted j single List.mem_cons_self
    cases step
    exact Graph.referrer?_recordReference_of_ne hk single j
  · exact step.referrer?_eq o (fun j k s ht => count ⟨j, k, s, ht⟩) x a

end Injector.Wiring
