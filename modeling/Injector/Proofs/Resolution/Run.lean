import Injector.Resolution
import Mathlib.Logic.Relation

/-!
# Runs

A resolution that succeeds is a sequence of states, each a graph with the tasks that are left. What
holds at first, and stays true when the first task of a state is done, holds in the end.
-/

namespace Injector.Wiring

variable {w : Wiring}

/-! ### The states of a run -/

/-- The states that a graph and an agenda lead to. -/
inductive Leads (w : Wiring) (g : Graph) (ts : List Task) : Graph → List Task → Prop
  | refl : Leads w g ts g ts
  | step {h h' : Graph} {t : Task} {rest next : List Task} (before : Leads w g ts h (t :: rest))
      (done : w.perform h t = .ok (h', next)) : Leads w g ts h' (next ++ rest)

lemma run_nil (w : Wiring) (g : Graph) : w.run g [] = some (.ok g) := by
  rw [run]

lemma run_of_perform {g g' : Graph} {t : Task} {next : List Task}
    (h : w.perform g t = .ok (g', next)) (rest : List Task) :
    w.run g (t :: rest) = w.run g' (next ++ rest) := by
  rw [run]
  simp only [h]

lemma run_of_perform_error {g : Graph} {t : Task} {e : Error} (h : w.perform g t = .error e)
    (rest : List Task) : w.run g (t :: rest) = some (.error e) := by
  rw [run]
  simp only [h]

lemma Leads.trans {g g' g'' : Graph} {ts ts' ts'' : List Task} (h : w.Leads g ts g' ts')
    (h' : w.Leads g' ts' g'' ts'') : w.Leads g ts g'' ts'' := by
  induction h' with
  | refl => exact h
  | step _ done ih => exact .step ih done

/-- All states of a run have the same outcome. -/
lemma Leads.run_eq {g h : Graph} {ts us : List Task} (l : w.Leads g ts h us) :
    w.run h us = w.run g ts := by
  induction l with
  | refl => rfl
  | step _ done ih => rw [← ih, run_of_perform done]

/-- A run that succeeds leads to its outcome, with nothing left to do. -/
theorem leads_of_run {g g' : Graph} {ts : List Task} (h : w.run g ts = some (.ok g')) :
    w.Leads g ts g' [] := by
  -- a run need not come to an end; partial correctness is about those that do
  refine run.partial_correctness w
    (fun g ts r => ∀ g', r = .ok g' → w.Leads g ts g' []) ?_ g ts _ h g' rfl
  rintro run ih g ts r h g' rfl
  cases ts with
  | nil => cases h; exact .refl
  | cons t rest =>
    cases hp : w.perform g t with
    | error e => simp [hp] at h
    | ok s =>
      obtain ⟨g₁, next⟩ := s
      simp only [hp] at h
      exact (Leads.step .refl hp).trans (ih g₁ (next ++ rest) _ h g' rfl)

/-- A run that succeeds never comes to give up. -/
lemma not_mem_fail_of_run {g g' : Graph} {ts : List Task} (h : w.run g ts = some (.ok g'))
    (e : Error) : .fail e ∉ ts := by
  refine run.partial_correctness w (fun _ ts r => ∀ g', r = .ok g' → .fail e ∉ ts) ?_ g ts _ h g' rfl
  rintro run ih g ts r h g' rfl
  cases ts with
  | nil => exact List.not_mem_nil
  | cons t rest =>
    cases hp : w.perform g t with
    | error e => simp [hp] at h
    | ok s =>
      obtain ⟨g₁, next⟩ := s
      simp only [hp] at h
      have hrest := ih g₁ (next ++ rest) _ h g' rfl
      rintro (_ | ⟨_, hmem⟩)
      · simp [perform] at hp
      · exact hrest (List.mem_append_right next hmem)

/-- A run that fails leads to a task that cannot be done. -/
theorem exists_leads_of_run_error {g : Graph} {ts : List Task} {e : Error}
    (h : w.run g ts = some (.error e)) :
    ∃ h t rest, w.Leads g ts h (t :: rest) ∧ w.perform h t = .error e := by
  refine run.partial_correctness w (fun g ts r => ∀ e, r = .error e →
    ∃ h t rest, w.Leads g ts h (t :: rest) ∧ w.perform h t = .error e) ?_ g ts _ h e rfl
  rintro run ih g ts r h e rfl
  cases ts with
  | nil => cases h
  | cons t rest =>
    cases hp : w.perform g t with
    | error e' =>
      simp only [hp, Option.some.injEq, Except.error.injEq] at h
      exact ⟨g, t, rest, .refl, h ▸ hp⟩
    | ok s =>
      obtain ⟨g₁, next⟩ := s
      simp only [hp] at h
      obtain ⟨h', t', rest', later, failed⟩ := ih g₁ (next ++ rest) _ h e rfl
      exact ⟨h', t', rest', (Leads.step .refl hp).trans later, failed⟩

/-- What each task preserves that can be done holds in all states. -/
lemma Leads.preserves {P : Graph → List Task → Prop} {g h : Graph} {ts us : List Task}
    (l : w.Leads g ts h us) (start : P g ts)
    (step : ∀ {g g' t rest next}, P g (t :: rest) → w.perform g t = .ok (g', next) →
      P g' (next ++ rest)) : P h us := by
  induction l with
  | refl => exact start
  | step _ done ih => exact step ih done

/-- A wiring that does alike what is done on the way goes through the same states. -/
lemma Leads.congr {w' : Wiring} {g h : Graph} {ts us : List Task} (l : w.Leads g ts h us)
    (same : ∀ {g' : Graph} {t : Task} {rest : List Task}, w.Leads g ts g' (t :: rest) →
      w.Leads g' (t :: rest) h us → w'.perform g' t = w.perform g' t) : w'.Leads g ts h us := by
  induction l with
  | refl => exact .refl
  | step before done ih =>
    have first := ih fun v later => same v (later.step done)
    exact first.step ((same before (.step .refl done)).trans done)

/-! ### Agendas in two parts -/

/-- What is done of an agenda is done if more comes after it. -/
lemma Leads.append {g h : Graph} {ts us : List Task} (l : w.Leads g ts h us) (vs : List Task) :
    w.Leads g (ts ++ vs) h (us ++ vs) := by
  induction l with
  | refl => exact .refl
  | step _ done ih =>
    rw [List.append_assoc]
    exact .step ih done

/-- A state of an agenda in two parts belongs to the first part, or comes after it. -/
lemma Leads.of_append {g h : Graph} {ts vs us : List Task} (l : w.Leads g (ts ++ vs) h us) :
    (∃ ts', us = ts' ++ vs ∧ w.Leads g ts h ts') ∨
      ∃ g', w.Leads g ts g' [] ∧ w.Leads g' vs h us := by
  induction l with
  | refl => exact .inl ⟨ts, rfl, .refl⟩
  | @step _ _ t rest next _ done ih =>
    rcases ih with ⟨ts', eq, first⟩ | ⟨g', first, later⟩
    · cases ts' with
      | nil =>
        rw [List.nil_append] at eq
        exact .inr ⟨_, first, .step (eq ▸ .refl) done⟩
      | cons t' ts' =>
        obtain ⟨rfl, rfl⟩ := List.cons.inj eq
        exact .inl ⟨next ++ ts', (List.append_assoc ..).symm, first.step done⟩
    · exact .inr ⟨g', first, later.step done⟩

/-- A run that succeeds does the first part of its agenda and then the other one. -/
theorem exists_leads_of_run_append {g F : Graph} {ts vs : List Task}
    (h : w.run g (ts ++ vs) = some (.ok F)) :
    ∃ g', w.Leads g ts g' [] ∧ w.Leads g' vs F [] := by
  rcases (leads_of_run h).of_append with ⟨ts', eq, first⟩ | split
  · obtain ⟨rfl, rfl⟩ := List.append_eq_nil_iff.1 eq.symm
    exact ⟨F, first, .refl⟩
  · exact split

/-! ### Bounded runs -/

/-- Work through an agenda in at most `n` steps. -/
def runFor (w : Wiring) : Nat → Graph → List Task → Option (Except Error Graph)
  | 0, _, _ => none
  | _ + 1, g, [] => some (.ok g)
  | n + 1, g, t :: rest =>
    match w.perform g t with
    | .error e => some (.error e)
    | .ok (g', next) => w.runFor n g' (next ++ rest)

/-- A bound that is high enough is no restriction. -/
theorem run_of_runFor {n : Nat} {g : Graph} {ts : List Task} {r : Except Error Graph}
    (h : w.runFor n g ts = some r) : w.run g ts = some r := by
  induction n generalizing g ts with
  | zero => cases h
  | succ n ih =>
    cases ts with
    | nil => rw [run_nil]; exact h
    | cons t rest =>
      rw [runFor] at h
      cases hp : w.perform g t with
      | error e =>
        rw [hp] at h
        rw [run_of_perform_error hp]
        exact h
      | ok s =>
        obtain ⟨g', next⟩ := s
        rw [hp] at h
        rw [run_of_perform hp]
        exact ih h

/-- A run that comes to an end does so within some number of steps. -/
theorem exists_runFor_of_run {g : Graph} {ts : List Task} {r : Except Error Graph}
    (h : w.run g ts = some r) : ∃ n, w.runFor n g ts = some r := by
  refine run.partial_correctness w (fun g ts r => ∃ n, w.runFor n g ts = some r) ?_ g ts _ h
  rintro run ih g ts r h
  cases ts with
  | nil => exact ⟨1, h⟩
  | cons t rest =>
    cases done : w.perform g t with
    | error e =>
      simp only [done] at h
      refine ⟨1, ?_⟩
      rw [runFor, done]
      exact h
    | ok s =>
      obtain ⟨g', next⟩ := s
      simp only [done] at h
      obtain ⟨n, hn⟩ := ih g' (next ++ rest) r h
      refine ⟨n + 1, ?_⟩
      rw [runFor, done]
      exact hn

end Injector.Wiring
