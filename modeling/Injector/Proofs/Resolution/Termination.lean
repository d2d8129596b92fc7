import Injector.Proofs.Resolution.Step
import Mathlib.Algebra.GroupWithZero.Nat
import Mathlib.Algebra.Order.BigOperators.Group.List
import Mathlib.Algebra.Order.Group.Nat

/-!
# Why a resolution comes to an end

Within finitely many identifiers a resolution cannot go on for ever. Each of them is defined once
and discovered once, each class that is discovered finds out its fields once, and no other task
brings up more than a check.
-/

namespace Injector

/-! ### What is ahead -/

/-- How much is ahead of an identifier: its definition, and the discovery of its class. -/
def Graph.ahead (g : Graph) (k : Identifier) : Nat :=
  match g.find? k with
  | none => 2
  | some d => if d.isPending then 1 else 0

/-- Whether a task finds out fields. -/
def Task.discovers : Task → Bool
  | .discoverFields .. => true
  | _ => false

/-- How many steps a task takes that brings up nothing new. -/
def Task.steps : Task → Nat
  | .request .. => 2
  | _ => 1

lemma Definition.isPending_addReferrer (consumer : Identifier) (singleton : Bool) (d : Definition) :
    (d.addReferrer consumer singleton).isPending = d.isPending := by
  induction d using Definition.id.induct <;> simp_all [addReferrer, isPending]

lemma Definition.isPending_of_completed {found : ClassDefinition} {d : Definition}
    (h : (d.completed found).isPending) : d.isPending := by
  cases d <;> simp_all [completed, isPending]

namespace Graph

variable {g g' : Graph} {k : Identifier}

/-- What is there already has no more ahead of it, unless it becomes pending again. -/
lemma ahead_le_of_find? (h : ∀ d, g.find? k = some d →
    ∃ d', g'.find? k = some d' ∧ (d'.isPending → d.isPending)) : g'.ahead k ≤ g.ahead k := by
  cases hd : g.find? k with
  | none =>
    have : g.ahead k = 2 := by simp [ahead, hd]
    rw [this, ahead]
    split
    · exact Nat.le_refl 2
    · split <;> omega
  | some d =>
    obtain ⟨d', hd', pending⟩ := h d hd
    simp only [ahead, hd, hd']
    split
    · next h => rw [if_pos (pending h)]
    · exact Nat.zero_le _

lemma ahead_adjust_le {f : Definition → Definition}
    (pending : ∀ d, (f d).isPending → d.isPending) (j : Identifier) :
    (g.adjust j f).ahead k ≤ g.ahead k := by
  apply ahead_le_of_find?
  intro d hd
  rw [find?_adjust, hd]
  by_cases hk : k = j
  · exact ⟨f d, by simp [hk], pending d⟩
  · exact ⟨d, by simp [hk], fun h => h⟩

lemma ahead_recordReference_le (consumer : Identifier) (singleton : Bool) (j : Identifier) :
    (g.recordReference consumer singleton j).ahead k ≤ g.ahead k := by
  apply ahead_le_of_find?
  intro d hd
  rw [find?_recordReference, hd]
  split
  · exact ⟨_, rfl, fun h => d.isPending_addReferrer consumer singleton ▸ h⟩
  · exact ⟨d, rfl, fun h => h⟩

lemma ahead_le_of_keepsDefinitions (h : ∀ d, g.find? k = some d → g'.find? k = some d) :
    g'.ahead k ≤ g.ahead k :=
  ahead_le_of_find? fun d hd => ⟨d, h d hd, fun h => h⟩

/-- An identifier that gets a definition has less ahead of it. -/
lemma ahead_lt_of_contains (absent : g.find? k = none) (h : g'.contains k) :
    g'.ahead k < g.ahead k := by
  obtain ⟨d, hd⟩ := Option.isSome_iff_exists.1 h
  simp only [ahead, absent, show g'.find? k = some d from hd]
  split <;> omega

/-- How much is ahead of some identifiers, and of an agenda. -/
def potential (g : Graph) (ks : List Identifier) (ts : List Task) : Nat :=
  2 * (ks.map g.ahead).sum + ts.countP Task.discovers

lemma potential_append (ks : List Identifier) (ts us : List Task) :
    g.potential ks (ts ++ us) = g.potential ks ts + us.countP Task.discovers := by
  simp only [potential, List.countP_append]
  omega

lemma potential_lt {ks : List Identifier} (le : ∀ k, g'.ahead k ≤ g.ahead k) (hk : k ∈ ks)
    (lt : g'.ahead k < g.ahead k) {ts us : List Task} (one : us.countP Task.discovers ≤ 1) :
    g'.potential ks us < g.potential ks ts := by
  have : (ks.map g'.ahead).sum < (ks.map g.ahead).sum :=
    List.sum_lt_sum _ _ (fun k _ => le k) ⟨k, hk, lt⟩
  simp only [potential]
  omega

lemma potential_le {ks : List Identifier} (le : ∀ k, g'.ahead k ≤ g.ahead k) {ts us : List Task}
    (fewer : us.countP Task.discovers ≤ ts.countP Task.discovers) :
    g'.potential ks us ≤ g.potential ks ts := by
  have : (ks.map g'.ahead).sum ≤ (ks.map g.ahead).sum :=
    List.sum_le_sum fun k _ => le k
  simp only [potential]
  omega

end Graph

/-! ### What tasks bring up -/

lemma Task.discovers_of_class? {t : Task} (h : t.class? = none) : t.discovers = false := by
  cases t <;> first | rfl | cases h

lemma countP_discovers_eq_zero {ts : List Task} (h : ∀ t ∈ ts, t.class? = none) :
    ts.countP Task.discovers = 0 := by
  rw [List.countP_eq_zero]
  intro t ht
  simp [Task.discovers_of_class? (h t ht)]

namespace Wiring

variable {w : Wiring} {g g' : Graph} {id : Identifier} {consumer : Option Identifier}
  {placed : Bool} {next : List Task}

/-- An identifier that is defined has less ahead of it, and nothing has more. -/
lemma ahead_of_define (absent : g.find? id = none)
    (h : w.define g id consumer placed = .ok (g', next)) :
    (∀ k, g'.ahead k ≤ g.ahead k) ∧ g'.ahead id < g.ahead id ∧
      next.countP Task.discovers = 0 := by
  obtain ⟨kept, none⟩ := kept_of_define h
  have defined : g'.contains id := by
    rcases cases_of_define h with ⟨hint, d, rest, unfolds, rfl, -⟩ | ⟨c, new, rfl, -⟩
    · rw [Graph.contains_eq, unfolds.find?_first absent]
      rfl
    · rw [Graph.contains_eq, Graph.find?_insertIfAbsent, if_pos new.id_eq.symm]
      rfl
  exact ⟨fun k => Graph.ahead_le_of_keepsDefinitions (kept k),
    Graph.ahead_lt_of_contains absent defined, countP_discovers_eq_zero none⟩

/-- A class whose discovery begins has less ahead of it, and nothing has more. -/
lemma ahead_of_discover {c : ClassDefinition} (present : g.find? id = some (.cls c))
    (hid : c.id = id) (pending : c.progress = .pending)
    (h : w.discover g c placed = .ok (g', next)) :
    (∀ k, g'.ahead k ≤ g.ahead k) ∧ g'.ahead id < g.ahead id ∧
      next.countP Task.discovers = 1 := by
  obtain ⟨source, -, h⟩ := bind_eq_ok.1 h
  obtain ⟨ps, -, h⟩ := bind_eq_ok.1 h
  cases h
  refine ⟨fun k => Graph.ahead_adjust_le ?_ _, ?_, ?_⟩
  · intro d hd
    cases d <;> simp_all [Definition.begun, Definition.isPending]
  · simp [Graph.ahead, hid, present, Definition.begun, Definition.isPending, pending]
  · rw [List.countP_append, countP_discovers_eq_zero]
    · rfl
    · intro t ht
      split at ht
      · exact class?_of_mem_parameterTasks ht
      · cases ht

lemma ahead_of_discoverFields {c : ClassDefinition}
    (h : w.discoverFields g c placed = .ok (g', next)) :
    g' = g ∧ next.countP Task.discovers = 0 := by
  obtain ⟨fs, -, h⟩ := bind_eq_ok.1 h
  cases h
  refine ⟨rfl, ?_⟩
  rw [List.countP_append, countP_discovers_eq_zero]
  · rfl
  · intro t ht
    split at ht
    · exact class?_of_mem_fieldTasks ht
    · cases ht

/-! ### Every step comes closer to the end -/

/-- With each task that is done less is ahead, or as much with fewer steps. -/
theorem perform_descends {ks : List Identifier} {t : Task}
    (keyed : ∀ k d, g.find? k = some d → d.id = k)
    (within : ∀ k consumer placed, t = .request k consumer placed → k ∈ ks)
    (h : w.perform g t = .ok (g', next)) :
    g'.potential ks next < g.potential ks [t] ∨
      g'.potential ks next ≤ g.potential ks [t] ∧ (next.map Task.steps).sum < t.steps := by
  have same : ∀ {ts : List Task}, ts.countP Task.discovers = 0 →
      g.potential ks ts ≤ g.potential ks [t] := fun none =>
    Graph.potential_le (fun _ => Nat.le_refl _) (none ▸ Nat.zero_le _)
  cases t with
  | request id consumer placed =>
    have hk := within _ _ _ rfl
    simp only [perform] at h
    split at h
    · next absent =>
      obtain ⟨le, lt, none⟩ := ahead_of_define absent h
      exact .inl (Graph.potential_lt le hk lt (none ▸ Nat.zero_le 1))
    · next c present =>
      split at h
      · next pending =>
        obtain ⟨le, lt, one⟩ := ahead_of_discover present (keyed _ _ present) pending h
        exact .inl (Graph.potential_lt le hk lt one.le)
      · cases h
        exact .inr ⟨same rfl, by simp [Task.steps]⟩
    · cases h
      exact .inr ⟨same rfl, by simp [Task.steps]⟩
  | check id consumer =>
    obtain ⟨_, -, h⟩ := bind_eq_ok.1 h
    cases h
    exact .inr ⟨same rfl, by simp [Task.steps]⟩
  | count id consumer singleton =>
    cases h
    refine .inr ⟨Graph.potential_le (fun k => ?_) (Nat.le_refl _), by simp [Task.steps]⟩
    exact Graph.ahead_recordReference_le consumer singleton id
  | discoverFields c placed =>
    obtain ⟨rfl, none⟩ := ahead_of_discoverFields h
    left
    simp [Graph.potential, none, Task.discovers]
  | complete c =>
    cases h
    refine .inr ⟨Graph.potential_le (fun k => ?_) (Nat.le_refl _), by simp [Task.steps]⟩
    exact Graph.ahead_adjust_le (fun d => Definition.isPending_of_completed) c.id
  | fail e => cases h

/-- A run that asks for finitely many identifiers comes to an end. -/
theorem isSome_run {P : Graph → List Task → Prop} (ks : List Identifier)
    (keyed : ∀ g ts, P g ts → ∀ k d, g.find? k = some d → d.id = k)
    (within : ∀ g ts, P g ts → ∀ k consumer placed, .request k consumer placed ∈ ts → k ∈ ks)
    (step : ∀ {g g' t rest next}, P g (t :: rest) → w.perform g t = .ok (g', next) →
      P g' (next ++ rest))
    : ∀ g ts, P g ts → (w.run g ts).isSome
  | g, [], _ => by
    rw [run_nil]
    rfl
  | g, t :: rest, h => by
    cases done : w.perform g t with
    | error e =>
      rw [run_of_perform_error done]
      rfl
    | ok s =>
      obtain ⟨g', next⟩ := s
      rw [run_of_perform done]
      exact isSome_run ks keyed within step g' (next ++ rest) (step h done)
termination_by g ts => (g.potential ks ts, (ts.map Task.steps).sum)
decreasing_by
  have descends := perform_descends (keyed _ _ h)
    (fun k consumer placed eq => within _ _ h k consumer placed (eq ▸ List.mem_cons_self)) done
  have front : g.potential ks (t :: rest) = _ := g.potential_append ks [t] rest
  rw [Prod.lex_def, Graph.potential_append, front, List.map_append, List.sum_append, List.map_cons,
    List.sum_cons]
  dsimp only
  omega

end Wiring

end Injector
