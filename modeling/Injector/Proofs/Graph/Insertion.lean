import Injector.Proofs.Graph.Shape
import Injector.Proofs.Table
import Mathlib.Data.List.Induction

/-!
# What operations on a graph do

Looking up after each of the operations that resolution performs: a definition that is inserted
never takes the place of another one, and a reference is counted once on each identifier of the
chain that it goes through.
-/

namespace Injector

/-! ### First occurrences -/

/-- One more item counts if it was not met before. -/
lemma firstOccurrences_concat (l : List String) (k : String) :
    firstOccurrences (l ++ [k]) =
      if k ∈ l then firstOccurrences l else firstOccurrences l ++ [k] := by
  have step : firstOccurrences (l ++ [k]) =
      if k ∈ firstOccurrences l then firstOccurrences l else firstOccurrences l ++ [k] := by
    rw [firstOccurrences, List.foldl_append]
    rfl
  simpa using step

/-- Each first occurrence is listed once. -/
lemma nodup_firstOccurrences (l : List String) : (firstOccurrences l).Nodup := by
  induction l using List.reverseRecOn with
  | nil => exact List.nodup_nil
  | append_singleton l k ih =>
    rw [firstOccurrences_concat]
    split
    · exact ih
    · next new => simpa using ih.concat (by simpa using new)

/-- What is met first comes first. -/
lemma pairwise_firstOccurrences (l : List String) :
    (firstOccurrences l).Pairwise fun a b => l.idxOf a < l.idxOf b := by
  induction l using List.reverseRecOn with
  | nil => exact List.Pairwise.nil
  | append_singleton l k ih =>
    have before : (firstOccurrences l).Pairwise fun a b =>
        (l ++ [k]).idxOf a < (l ++ [k]).idxOf b := by
      apply ih.imp_of_mem
      intro a b ha hb h
      rwa [List.idxOf_append_of_mem (mem_firstOccurrences.1 ha),
        List.idxOf_append_of_mem (mem_firstOccurrences.1 hb)]
    rw [firstOccurrences_concat]
    split
    · exact before
    · next new =>
      refine List.pairwise_append.2 ⟨before, List.pairwise_singleton .., ?_⟩
      intro a ha b hb
      obtain rfl := List.mem_singleton.1 hb
      have met : a ∈ l := mem_firstOccurrences.1 ha
      calc (l ++ [b]).idxOf a = l.idxOf a := List.idxOf_append_of_mem met
        _ < l.length := List.idxOf_lt_length_of_mem met
        _ ≤ (l ++ [b]).idxOf b := by simp [List.idxOf_append_of_notMem new]

/-- A list without repetition consists of its first occurrences. -/
lemma firstOccurrences_of_nodup {l : List String} (nodup : l.Nodup) : firstOccurrences l = l := by
  induction l using List.reverseRecOn with
  | nil => rfl
  | append_singleton l k ih =>
    have new : k ∉ l := fun hk => List.disjoint_of_nodup_append nodup hk (List.mem_singleton_self k)
    rw [firstOccurrences_concat, if_neg new, ih nodup.of_append_left]

/-- What comes later in a list does not change what is met first. -/
lemma firstOccurrences_isPrefix_append (l l' : List String) :
    firstOccurrences l <+: firstOccurrences (l ++ l') := by
  induction l' using List.reverseRecOn with
  | nil => simp
  | append_singleton l' k ih =>
    rw [← List.append_assoc, firstOccurrences_concat]
    split
    · exact ih
    · exact ih.trans (List.prefix_append _ _)

namespace Graph

/-! ### Inserting -/

/-- Insertion adds what was not there. -/
lemma find?_insertAll (g : Graph) {ds : List (Identifier × Definition)}
    (keyed : ∀ e ∈ ds, e.2.id = e.1) (k : Identifier) :
    (g.insertAll ds).1.find? k = (g.find? k).or (ds.lookup k) := by
  induction ds generalizing g with
  | nil => simp [insertAll]
  | cons e ds ih =>
    obtain ⟨id, d⟩ := e
    have hid : d.id = id := keyed (id, d) List.mem_cons_self
    have ih := fun g => ih g fun e he => keyed e (List.mem_cons_of_mem _ he)
    simp only [insertAll, contains_eq, hid, lookup_cons]
    split
    · next hc =>
      rw [ih]
      by_cases hk : k = id
      · obtain ⟨d', hd'⟩ := Option.isSome_iff_exists.1 hc
        simp [hk, hd']
      · simp [hk]
    · next hc =>
      rw [ih, find?_insertIfAbsent, hid]
      by_cases hk : k = id
      · have hn : g.find? id = none := by simpa using hc
        simp [hk, hn]
      · simp [hk]

/-- The new identifiers are those that had no definition. -/
lemma mem_new_insertAll {g : Graph} {ds : List (Identifier × Definition)}
    (keyed : ∀ e ∈ ds, e.2.id = e.1) {k : Identifier} :
    k ∈ (g.insertAll ds).2 ↔ g.find? k = none ∧ ∃ d, (k, d) ∈ ds := by
  induction ds generalizing g with
  | nil => simp [insertAll]
  | cons e ds ih =>
    obtain ⟨id, d⟩ := e
    have hid : d.id = id := keyed (id, d) List.mem_cons_self
    have ih := fun g => ih (g := g) fun e he => keyed e (List.mem_cons_of_mem _ he)
    simp only [insertAll, contains_eq, hid]
    split
    · next hc =>
      rw [ih]
      refine and_congr_right fun hn => ?_
      have hk : k ≠ id := by rintro rfl; simp [hn] at hc
      simp [hk]
    · next hc =>
      have hn : g.find? id = none := by simpa using hc
      rw [List.mem_cons, ih, find?_insertIfAbsent, hid]
      by_cases hk : k = id
      · subst hk
        simp only [hn, true_and, true_or, true_iff]
        exact ⟨d, List.mem_cons_self⟩
      · simp [hk]

lemma keeps_insertAll (g : Graph) {ds : List (Identifier × Definition)}
    (keyed : ∀ e ∈ ds, e.2.id = e.1) : g.Keeps (g.insertAll ds).1 := by
  intro k s hk
  obtain ⟨d, hd, rfl⟩ := exists_find?_of_shape? hk
  exact shape?_of_find? (by rw [find?_insertAll g keyed, hd]; rfl)

lemma keeps_insertIfAbsent (g : Graph) (d : Definition) : g.Keeps (g.insertIfAbsent d) := by
  intro k s hk
  obtain ⟨d', hd', rfl⟩ := exists_find?_of_shape? hk
  refine shape?_of_find? ?_
  rw [find?_insertIfAbsent]
  split
  · rw [hd']; rfl
  · exact hd'

/-! ### Forwarding -/

/-- An identifier forwards a consumer to another one. -/
def Forwards (g : Graph) (consumer : Identifier) (a b : Identifier) : Prop :=
  g.forward? consumer a = some b

lemma Forwards.contains {g : Graph} {consumer a b : Identifier} (h : g.Forwards consumer a b) :
    g.contains a := by
  obtain ⟨d, hd, -⟩ := Option.bind_eq_some_iff.1 h
  exact Option.isSome_iff_exists.2 ⟨d, hd⟩

/-- A chain is a matter of where each identifier forwards to. -/
lemma chainWithin_congr {g g' : Graph} {consumer : Identifier}
    (same : ∀ k, g'.forward? consumer k = g.forward? consumer k) (unmet : List Identifier)
    (k : Identifier) : g'.chainWithin consumer unmet k = g.chainWithin consumer unmet k := by
  fun_induction chainWithin g consumer unmet k with
  | case1 unmet k hk ih =>
    rw [chainWithin, if_pos hk, same]
    cases hn : g.forward? consumer k with
    | none => rfl
    | some next => simp only [ih next]
  | case2 unmet k hk => rw [chainWithin, if_neg hk]

lemma mem_unmet_of_mem_chainWithin {g : Graph} {consumer x : Identifier} {unmet : List Identifier}
    {k : Identifier} (h : x ∈ g.chainWithin consumer unmet k) : x ∈ unmet := by
  fun_induction chainWithin g consumer unmet k with
  | case1 unmet k hk ih =>
    rcases List.mem_cons.1 h with rfl | h
    · exact hk
    · cases hn : g.forward? consumer k with
      | none => simp [hn] at h
      | some next =>
        rw [hn] at h
        exact List.mem_of_mem_erase (ih next h)
  | case2 unmet k hk => simp at h

lemma nodup_chainWithin (g : Graph) (consumer : Identifier) {unmet : List Identifier}
    (nodup : unmet.Nodup) (k : Identifier) : (g.chainWithin consumer unmet k).Nodup := by
  fun_induction chainWithin g consumer unmet k with
  | case1 unmet k hk ih =>
    cases hn : g.forward? consumer k with
    | none => exact List.nodup_singleton k
    | some next =>
      exact List.nodup_cons.2
        ⟨fun h => nodup.not_mem_erase (mem_unmet_of_mem_chainWithin h), ih next (nodup.erase k)⟩
  | case2 unmet k hk => exact List.nodup_nil

lemma reaches_of_mem_chainWithin {g : Graph} {consumer x : Identifier} {unmet : List Identifier}
    {k : Identifier} (h : x ∈ g.chainWithin consumer unmet k) :
    Relation.ReflTransGen (g.Forwards consumer) k x := by
  fun_induction chainWithin g consumer unmet k with
  | case1 unmet k hk ih =>
    rcases List.mem_cons.1 h with rfl | h
    · exact .refl
    · cases hn : g.forward? consumer k with
      | none => simp [hn] at h
      | some next =>
        rw [hn] at h
        exact .head hn (ih next h)
  | case2 unmet k hk => simp at h

/-- The chain misses nothing: those that were met already forward to one another, or to the
identifier that is asked for now. -/
lemma mem_chainWithin_of_reaches {g : Graph} {consumer x : Identifier} {unmet : List Identifier}
    {k : Identifier} (met : Identifier → Prop) (defined : ∀ y, g.contains y → y ∈ unmet ∨ met y)
    (closed : ∀ y z, met y → g.Forwards consumer y z → met z ∨ z = k)
    (hx : g.contains x) (h : Relation.ReflTransGen (g.Forwards consumer) k x) :
    x ∈ g.chainWithin consumer unmet k ∨ met x := by
  fun_induction chainWithin g consumer unmet k generalizing met with
  | case1 unmet k hk ih =>
    rcases Relation.ReflTransGen.cases_head h with rfl | ⟨next, hn, h⟩
    · exact .inl List.mem_cons_self
    have defined' : ∀ y, g.contains y → y ∈ unmet.erase k ∨ met y ∨ y = k := by
      intro y hy
      by_cases hyk : y = k
      · exact .inr (.inr hyk)
      · exact (defined y hy).imp (List.mem_erase_of_ne hyk).2 .inl
    have closed' : ∀ y z, met y ∨ y = k → g.Forwards consumer y z →
        (met z ∨ z = k) ∨ z = next := by
      rintro y z (hy | rfl) hyz
      · exact .inl (closed y z hy hyz)
      · exact .inr (Option.some.inj (hyz.symm.trans hn))
    rw [show g.forward? consumer k = some next from hn]
    rcases ih next (fun y => met y ∨ y = k) defined' closed' h with h | h | rfl
    · exact .inl (List.mem_cons_of_mem _ h)
    · exact .inr h
    · exact .inl List.mem_cons_self
  | case2 unmet k hk =>
    right
    have hmet : g.contains k → met k := fun hc => (defined k hc).resolve_left hk
    -- once a chain comes back to what was met it never leaves it
    induction h with
    | refl => exact hmet hx
    | tail _ hs ih =>
      rcases closed _ _ (ih hs.contains) hs with hz | rfl
      · exact hz
      · exact hmet hx

/-- A consumer goes through all that it is forwarded to, as far as there are definitions. -/
lemma mem_chain_iff {g : Graph} {consumer k x : Identifier} :
    x ∈ g.chain consumer k ↔
      g.contains x ∧ Relation.ReflTransGen (g.Forwards consumer) k x := by
  constructor
  · intro h
    exact ⟨(g.definitions.mem_keys_iff x).1 (mem_unmet_of_mem_chainWithin h),
      reaches_of_mem_chainWithin h⟩
  · rintro ⟨hx, h⟩
    refine (mem_chainWithin_of_reaches (fun _ => False) ?_ ?_ hx h).resolve_right id
    · exact fun y hy => .inl ((g.definitions.mem_keys_iff y).2 hy)
    · exact fun _ _ h => h.elim

/-- A chain only gets longer. -/
lemma Keeps.mem_chain {g g' : Graph} (h : g.Keeps g') {consumer k x : Identifier}
    (hx : x ∈ g.chain consumer k) : x ∈ g'.chain consumer k := by
  obtain ⟨hc, path⟩ := mem_chain_iff.1 hx
  exact mem_chain_iff.2
    ⟨h.contains hc, Relation.ReflTransGen.mono (fun _ _ => h.forward?) _ _ path⟩

lemma nodup_chain (g : Graph) (consumer k : Identifier) : (g.chain consumer k).Nodup :=
  nodup_chainWithin g consumer g.definitions.nodup_keys k

/-! ### Counting -/

lemma find?_foldl_addReferrer {consumer : Identifier} {singleton : Bool} {ks : List Identifier}
    (nodup : ks.Nodup) (g : Graph) (x : Identifier) :
    (ks.foldl (·.addReferrer consumer singleton) g).find? x =
      if x ∈ ks then (g.find? x).map (·.addReferrer consumer singleton) else g.find? x := by
  induction ks generalizing g with
  | nil => simp
  | cons k ks ih =>
    obtain ⟨hk, nodup⟩ := List.nodup_cons.1 nodup
    rw [List.foldl_cons, ih nodup, Graph.addReferrer, find?_adjust]
    by_cases hx : x = k
    · simp [hx, hk]
    · simp [hx]

/-- A reference is counted once on each identifier of its chain. -/
lemma find?_recordReference (g : Graph) (consumer : Identifier) (singleton : Bool)
    (k x : Identifier) :
    (g.recordReference consumer singleton k).find? x =
      if x ∈ g.chain consumer k then (g.find? x).map (·.addReferrer consumer singleton)
      else g.find? x :=
  find?_foldl_addReferrer (g.nodup_chain consumer k) g x

lemma shape?_recordReference (g : Graph) (consumer : Identifier) (singleton : Bool)
    (k x : Identifier) : (g.recordReference consumer singleton k).shape? x = g.shape? x := by
  rw [shape?, find?_recordReference]
  split
  · cases h : g.find? x <;> simp [shape?, h]
  · rfl

/-! ### Entry points -/

@[simp] lemma entryPoints_insertIfAbsent (g : Graph) (d : Definition) :
    (g.insertIfAbsent d).entryPoints = g.entryPoints := by
  simp only [insertIfAbsent]
  split <;> rfl

@[simp] lemma entryPoints_insertAll (g : Graph) (ds : List (Identifier × Definition)) :
    (g.insertAll ds).1.entryPoints = g.entryPoints := by
  induction ds generalizing g with
  | nil => rfl
  | cons e ds ih =>
    rw [insertAll]
    split
    · exact ih g
    · exact (ih _).trans (g.entryPoints_insertIfAbsent e.2)

@[simp] lemma entryPoints_recordReference (g : Graph) (consumer : Identifier) (singleton : Bool)
    (k : Identifier) : (g.recordReference consumer singleton k).entryPoints = g.entryPoints := by
  simp only [recordReference]
  induction g.chain consumer k generalizing g with
  | nil => rfl
  | cons x xs ih => exact ih (g.addReferrer consumer singleton x)

lemma entryPoints_foldl_declare (g : Graph) (ks : List Identifier) :
    (ks.foldl (·.declare) g).entryPoints =
      ks.foldl (fun met k => if k ∈ met then met else met ++ [k]) g.entryPoints := by
  induction ks generalizing g with
  | nil => rfl
  | cons k ks ih =>
    rw [List.foldl_cons, List.foldl_cons, ih, declare]
    split <;> rfl

end Graph

end Injector
