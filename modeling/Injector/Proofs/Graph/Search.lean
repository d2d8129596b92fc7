import Injector.Graph.Order
import Mathlib.Data.List.Nodup
import Mathlib.Logic.Relation

/-!
# Searching in depth

The search from an identifier as a recursion over its dependencies: what has been met is passed
over, and an identifier is done when all its dependencies are. It comes to exactly what the
identifier needs, and of two that depend on one another in one direction only, the one that is
needed is done first.
-/

namespace Injector

/-- How far a search has come. -/
structure Search where
  met : List Identifier := []
  /-- The identifiers that are done, the last one first. -/
  done : List Identifier := []

namespace Graph

/-- Search from an identifier, at most `depth` identifiers deep. -/
def visit (g : Graph) : Nat → Search → Identifier → Search
  | 0, s, _ => s
  | depth + 1, s, id =>
    if id ∈ s.met then s
    else
      let s := (g.edges id).foldl (g.visit depth) { s with met := id :: s.met }
      { s with done := id :: s.done }

/-- An identifier depends directly on another one that is defined. -/
def Edge (g : Graph) (a b : Identifier) : Prop := b ∈ g.edges a

/-- An identifier needs another one, directly or not, or is that one. -/
abbrev Reaches (g : Graph) : Identifier → Identifier → Prop := Relation.ReflTransGen g.Edge

lemma edge_iff {g : Graph} {a b : Identifier} :
    g.Edge a b ↔ (∃ d, g.find? a = some d ∧ b ∈ d.dependencies) ∧ g.contains b := by
  rw [Edge, edges, List.mem_filter]
  cases h : g.find? a <;> simp

lemma Edge.contains {g : Graph} {a b : Identifier} (h : g.Edge a b) : g.contains b :=
  (edge_iff.1 h).2

lemma Reaches.contains {g : Graph} {a b : Identifier} (h : g.Reaches a b) (ha : g.contains a) :
    g.contains b := by
  induction h with
  | refl => exact ha
  | tail _ edge _ => exact edge.contains

end Graph

/-! ### States of a search -/

namespace Search

/-- What is done is listed once. What a done identifier depends on has been met, and was done before
it unless it needs the identifier in turn. -/
structure IsSound (g : Graph) (s : Search) : Prop where
  nodup : s.done.Nodup
  met : ∀ k ∈ s.done, k ∈ s.met
  order : ∀ a ∈ s.done, ∀ b, g.Edge a b → b ∈ s.met ∧ ([a, b].Sublist s.done ∨ g.Reaches b a)

/-- Whatever has been met but is not done needs an identifier. -/
def LeadsTo (g : Graph) (s : Search) (id : Identifier) : Prop :=
  ∀ k ∈ s.met, k ∈ s.done ∨ g.Reaches k id

/-- All identifiers that are defined have been met, but for some. -/
def MeetsAllBut (g : Graph) (s : Search) (unmet : List Identifier) : Prop :=
  ∀ k, g.contains k → k ∈ s.met ∨ k ∈ unmet

/-- What is added by a search from an identifier: it was unmet, the identifier needs it, and it is
done afterwards. -/
structure Extends (g : Graph) (id : Identifier) (s s' : Search) : Prop where
  met : ∀ k ∈ s.met, k ∈ s'.met
  done : s.done <:+ s'.done
  finished : ∀ k ∈ s'.met, k ∈ s.met ∨ k ∈ s'.done
  new : ∀ k ∈ s'.done, k ∈ s.done ∨ k ∉ s.met ∧ g.Reaches id k

variable {g : Graph} {s s' s'' : Search} {id : Identifier}

lemma visit_of_mem (h : id ∈ s.met) (depth : Nat) : g.visit depth s id = s := by
  cases depth with
  | zero => rfl
  | succ depth => exact if_pos h

lemma Extends.refl (g : Graph) (id : Identifier) (s : Search) : Extends g id s s where
  met _ hk := hk
  done := List.suffix_refl _
  finished _ hk := .inl hk
  new _ hk := .inl hk

lemma Extends.trans (h : Extends g id s s') (h' : Extends g id s' s'') : Extends g id s s'' where
  met k hk := h'.met k (h.met k hk)
  done := h.done.trans h'.done
  finished k hk := by
    rcases h'.finished k hk with hk | hk
    · exact (h.finished k hk).imp_right fun hk => h'.done.subset hk
    · exact .inr hk
  new k hk := by
    rcases h'.new k hk with hk | ⟨unmet, reach⟩
    · exact h.new k hk
    · exact .inr ⟨fun hk => unmet (h.met k hk), reach⟩

lemma Extends.of_edge {j : Identifier} (edge : g.Edge id j) (h : Extends g j s s') :
    Extends g id s s' where
  met := h.met
  done := h.done
  finished := h.finished
  new k hk := by
    rcases h.new k hk with hk | ⟨unmet, reach⟩
    · exact .inl hk
    · exact .inr ⟨unmet, .head edge reach⟩

lemma LeadsTo.of_extends (leads : LeadsTo g s id) {j : Identifier} (h : Extends g j s s') :
    LeadsTo g s' id := by
  intro k hk
  rcases h.finished k hk with hk | hk
  · exact (leads k hk).imp_left fun hk => h.done.subset hk
  · exact .inl hk

lemma LeadsTo.of_edge (leads : LeadsTo g s id) {j : Identifier} (edge : g.Edge id j) :
    LeadsTo g s j :=
  fun k hk => (leads k hk).imp_right fun reach => reach.tail edge

lemma MeetsAllBut.of_extends {unmet : List Identifier} (meets : MeetsAllBut g s unmet)
    {j : Identifier} (h : Extends g j s s') : MeetsAllBut g s' unmet :=
  fun k hk => (meets k hk).imp_left (h.met k)

/-- An identifier that is met next is no longer unmet. -/
lemma MeetsAllBut.meet {unmet : List Identifier} (meets : MeetsAllBut g s unmet)
    (id : Identifier) : MeetsAllBut g { s with met := id :: s.met } (unmet.erase id) := by
  intro k hk
  by_cases hid : k = id
  · exact .inl (List.mem_cons.2 (.inl hid))
  · rcases meets k hk with hk | hk
    · exact .inl (List.mem_cons_of_mem id hk)
    · exact .inr ((List.mem_erase_of_ne hid).2 hk)

/-- A search stays sound when an identifier is met, for nothing more is done. -/
lemma IsSound.meet (sound : IsSound g s) (id : Identifier) :
    IsSound g { s with met := id :: s.met } where
  nodup := sound.nodup
  met k hk := List.mem_cons_of_mem id (sound.met k hk)
  order a ha b edge := (sound.order a ha b edge).imp_left (List.mem_cons_of_mem id)

lemma LeadsTo.meet (leads : LeadsTo g s id) : LeadsTo g { s with met := id :: s.met } id := by
  intro k hk
  rcases List.mem_cons.1 hk with rfl | hk
  · exact .inr .refl
  · exact leads k hk

/-- An identifier that is met for the first time is not done while its dependencies are searched. -/
lemma Extends.not_mem_done (sound : IsSound g s) (new : id ∉ s.met)
    (extend : Extends g id { s with met := id :: s.met } s') : id ∉ s'.done := by
  intro h
  rcases extend.new id h with h | ⟨h, -⟩
  · exact new (sound.met id h)
  · exact h List.mem_cons_self

/-- What a search from an identifier comes to. -/
structure Visited (g : Graph) (id : Identifier) (s s' : Search) : Prop where
  sound : IsSound g s'
  extend : Extends g id s s'
  mem : id ∈ s'.met

/-- Searching from all dependencies of an identifier adds what they need. -/
lemma foldl_visit {depth : Nat} {unmet : List Identifier}
    (visited : ∀ {s : Search} {j : Identifier}, IsSound g s → LeadsTo g s j →
      MeetsAllBut g s unmet → g.contains j → Visited g j s (g.visit depth s j))
    {js : List Identifier} (edges : ∀ j ∈ js, g.Edge id j) (sound : IsSound g s)
    (leads : LeadsTo g s id) (meets : MeetsAllBut g s unmet) :
    IsSound g (js.foldl (g.visit depth) s) ∧ Extends g id s (js.foldl (g.visit depth) s) ∧
      ∀ j ∈ js, j ∈ (js.foldl (g.visit depth) s).met := by
  induction js generalizing s with
  | nil => exact ⟨sound, .refl g id s, by simp⟩
  | cons j js ih =>
    have edge : g.Edge id j := edges j List.mem_cons_self
    have first := visited sound (leads.of_edge edge) meets edge.contains
    obtain ⟨sound', extend', mem⟩ := ih (fun j' hj => edges j' (List.mem_cons_of_mem j hj))
      first.sound (leads.of_extends first.extend) (meets.of_extends first.extend)
    refine ⟨sound', (first.extend.of_edge edge).trans extend', fun j' hj => ?_⟩
    rcases List.mem_cons.1 hj with rfl | hj
    · exact extend'.met j' first.mem
    · exact mem j' hj

/-- An identifier is done when everything that it depends on has been searched. -/
lemma Visited.of_done (new : id ∉ s.met) (sound : IsSound g s)
    (leads : LeadsTo g s' id) (sound' : IsSound g s')
    (extend : Extends g id { s with met := id :: s.met } s')
    (mem : ∀ j ∈ g.edges id, j ∈ s'.met) :
    Visited g id s { s' with done := id :: s'.done } := by
  have met : id ∈ s'.met := extend.met id List.mem_cons_self
  constructor
  · constructor
    · exact List.nodup_cons.2 ⟨extend.not_mem_done sound new, sound'.nodup⟩
    · intro k hk
      rcases List.mem_cons.1 hk with rfl | hk
      · exact met
      · exact sound'.met k hk
    · intro a ha b edge
      rcases List.mem_cons.1 ha with rfl | ha
      · -- what it depends on is done by now, or was met on the way to it
        refine ⟨mem b edge, ?_⟩
        rcases leads b (mem b edge) with done | reach
        · exact .inl (List.cons_sublist_cons.2 (List.singleton_sublist.2 done))
        · exact .inr reach
      · obtain ⟨hb, order⟩ := sound'.order a ha b edge
        exact ⟨hb, order.imp_left fun before => before.cons id⟩
  · constructor
    · intro k hk
      exact extend.met k (List.mem_cons_of_mem id hk)
    · exact extend.done.trans (List.suffix_cons id s'.done)
    · intro k hk
      rcases extend.finished k hk with hk | hk
      · rcases List.mem_cons.1 hk with rfl | hk
        · exact .inr List.mem_cons_self
        · exact .inl hk
      · exact .inr (List.mem_cons_of_mem id hk)
    · intro k hk
      rcases List.mem_cons.1 hk with rfl | hk
      · exact .inr ⟨new, .refl⟩
      · exact (extend.new k hk).imp_right fun ⟨unmet, reach⟩ =>
          ⟨fun hk => unmet (List.mem_cons_of_mem id hk), reach⟩
  · exact met

/-- A search that is deep enough for all unmet identifiers is sound and complete. -/
theorem visited_visit {depth : Nat} {unmet : List Identifier} (enough : unmet.length ≤ depth)
    (sound : IsSound g s) (leads : LeadsTo g s id) (meets : MeetsAllBut g s unmet)
    (defined : g.contains id) : Visited g id s (g.visit depth s id) := by
  induction depth generalizing s id unmet with
  | zero =>
    obtain rfl := List.length_eq_zero_iff.1 (Nat.le_zero.1 enough)
    exact ⟨sound, .refl g id s, (meets id defined).resolve_right List.not_mem_nil⟩
  | succ depth ih =>
    by_cases new : id ∈ s.met
    · rw [visit_of_mem new]
      exact ⟨sound, .refl g id s, new⟩
    rw [Graph.visit, if_neg new]
    have hid : id ∈ unmet := (meets id defined).resolve_left new
    have enough' : (unmet.erase id).length ≤ depth := by
      rw [List.length_erase_of_mem hid]
      omega
    obtain ⟨sound₂, extend, mem⟩ := foldl_visit
      (fun sound leads meets defined => ih enough' sound leads meets defined)
      (fun j hj => hj) (sound.meet id) leads.meet (meets.meet id)
    exact .of_done new sound (leads.meet.of_extends extend) sound₂ extend mem

/-! ### Searches from the start -/

lemma IsSound.start (g : Graph) : IsSound g {} where
  nodup := List.nodup_nil
  met _ hk := nomatch hk
  order _ ha := nomatch ha

lemma LeadsTo.start (g : Graph) (id : Identifier) : LeadsTo g {} id := fun _ hk => nomatch hk

lemma MeetsAllBut.start (g : Graph) : MeetsAllBut g {} g.identifiers :=
  fun k hk => .inr ((g.definitions.mem_keys_iff k).2 hk)

end Search

/-- No path without repetition is longer than there are definitions, so a search of that depth comes
to all that is needed. -/
lemma Graph.visited_start {g : Graph} {id : Identifier} (defined : g.contains id) :
    Search.Visited g id {} (g.visit g.size {} id) :=
  Search.visited_visit (Nat.le_of_eq g.length_identifiers) (.start g) (.start g id) (.start g)
    defined

end Injector
