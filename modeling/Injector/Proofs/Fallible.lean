import Injector.Error
import Mathlib.Tactic.Common

/-!
# Lists of steps that may fail

A list of steps fails with its first step that fails. One that succeeds has a result for each step,
and the same steps in another order have the same results in another order.
-/

namespace Injector

variable {α β γ : Type}

lemma map_eq_error {f : α → β} {x : Except Error α} {e : Error} :
    x.map f = .error e ↔ x = .error e := by
  cases x <;> simp [Except.map]

lemma exists_of_mapM_eq_error {f : α → Except Error β} {l : List α} {e : Error}
    (h : l.mapM f = .error e) : ∃ a ∈ l, f a = .error e := by
  induction l with
  | nil => cases h
  | cons a l ih =>
    rw [List.mapM_cons] at h
    rcases bind_eq_error.1 h with h | ⟨b, -, h⟩
    · exact ⟨a, List.mem_cons_self, h⟩
    rcases bind_eq_error.1 h with h | ⟨bs, -, h⟩
    · obtain ⟨a', ha', h⟩ := ih h
      exact ⟨a', List.mem_cons_of_mem a ha', h⟩
    · cases h

lemma exists_of_map_eq_ok {f : α → β} {x : Except Error α} {b : β}
    (h : x.map f = .ok b) : ∃ a, x = .ok a := by
  cases x with
  | error => cases h
  | ok a => exact ⟨a, rfl⟩

/-- A list of steps that succeed has a result for each step, and no other ones. -/
lemma exists_mem_of_mapM_eq_ok {f : α → Except Error β} {l : List α} {bs : List β}
    (h : l.mapM f = .ok bs) :
    (∀ a ∈ l, ∃ b ∈ bs, f a = .ok b) ∧ ∀ b ∈ bs, ∃ a ∈ l, f a = .ok b := by
  induction l generalizing bs with
  | nil =>
    cases h
    simp
  | cons a l ih =>
    rw [List.mapM_cons] at h
    obtain ⟨b, hb, h⟩ := bind_eq_ok.1 h
    obtain ⟨bs', hbs, h⟩ := bind_eq_ok.1 h
    cases h
    obtain ⟨results, steps⟩ := ih hbs
    constructor
    · intro a' ha
      rcases List.mem_cons.1 ha with rfl | ha
      · exact ⟨b, List.mem_cons_self, hb⟩
      · obtain ⟨b', hb', eq⟩ := results a' ha
        exact ⟨b', List.mem_cons_of_mem b hb', eq⟩
    · intro b' hb'
      rcases List.mem_cons.1 hb' with rfl | hb'
      · exact ⟨a, List.mem_cons_self, hb⟩
      · obtain ⟨a', ha, eq⟩ := steps b' hb'
        exact ⟨a', List.mem_cons_of_mem a ha, eq⟩

lemma forall_of_mapM_eq_ok {f : α → Except Error β} {l : List α} {bs : List β}
    (h : l.mapM f = .ok bs) : ∀ a ∈ l, ∃ b, f a = .ok b := by
  intro a ha
  obtain ⟨b, -, hb⟩ := (exists_mem_of_mapM_eq_ok h).1 a ha
  exact ⟨b, hb⟩

/-- What is gathered from the results is gathered from the steps. -/
lemma flatMap_of_mapM_eq_ok {f : α → Except Error β} {l : List α} {bs : List β}
    {p : β → List γ} {q : α → List γ} (each : ∀ a b, f a = .ok b → p b = q a)
    (h : l.mapM f = .ok bs) : bs.flatMap p = l.flatMap q := by
  induction l generalizing bs with
  | nil =>
    cases h
    rfl
  | cons a l ih =>
    rw [List.mapM_cons] at h
    obtain ⟨b, hb, h⟩ := bind_eq_ok.1 h
    obtain ⟨bs', hbs, h⟩ := bind_eq_ok.1 h
    cases h
    rw [List.flatMap_cons, List.flatMap_cons, each a b hb, ih hbs]

/-- Elements for which two functions agree come to the same. -/
lemma mapM_congr_left {f f' : α → Except Error β} {l : List α} (h : ∀ a ∈ l, f a = f' a) :
    l.mapM f = l.mapM f' := by
  induction l with
  | nil => rfl
  | cons a l ih =>
    have others := ih fun b hb => h b (List.mem_cons_of_mem a hb)
    rw [List.mapM_cons, List.mapM_cons, h a List.mem_cons_self, others]

/-- The same steps in another order succeed with the same results in another order. -/
lemma exists_perm_of_mapM_eq_ok {f : α → Except Error β} {l l' : List α} (perm : l'.Perm l)
    {bs : List β} (h : l.mapM f = .ok bs) : ∃ bs', l'.mapM f = .ok bs' ∧ bs'.Perm bs := by
  induction perm generalizing bs with
  | nil => exact ⟨bs, h, .refl bs⟩
  | @cons a l₁ l₂ _ ih =>
    rw [List.mapM_cons] at h
    obtain ⟨b, hb, h⟩ := bind_eq_ok.1 h
    obtain ⟨rest, hrest, h⟩ := bind_eq_ok.1 h
    cases h
    obtain ⟨rest', hrest', perm⟩ := ih hrest
    refine ⟨b :: rest', ?_, perm.cons b⟩
    rw [List.mapM_cons, hb, hrest']
    rfl
  | swap a a' l =>
    rw [List.mapM_cons, List.mapM_cons] at h
    obtain ⟨b, hb, h⟩ := bind_eq_ok.1 h
    obtain ⟨later, hlater, h⟩ := bind_eq_ok.1 h
    obtain ⟨b', hb', hlater⟩ := bind_eq_ok.1 hlater
    obtain ⟨rest, hrest, hlater⟩ := bind_eq_ok.1 hlater
    cases h
    cases hlater
    refine ⟨b' :: b :: rest, ?_, .swap b b' rest⟩
    rw [List.mapM_cons, List.mapM_cons, hb, hb', hrest]
    rfl
  | trans _ _ ih₁ ih₂ =>
    obtain ⟨bs₂, h₂, perm₂⟩ := ih₂ h
    obtain ⟨bs₁, h₁, perm₁⟩ := ih₁ h₂
    exact ⟨bs₁, h₁, perm₁.trans perm₂⟩

end Injector
