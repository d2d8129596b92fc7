/-!
# Tables keyed by text

A table lists its entries in ascending key order, each key once. The order is that of code points,
so two tables that answer every look-up alike are equal (`Table.ext_find?`), and every listing of
a table is sorted without further work.
-/

namespace Injector

universe u v

variable {α : Type u} {β : Type v}

/-! ### Entry lists -/

/-- Put `a` at key `k` of an ascending list, in place of what was there. -/
def putAt (k : String) (a : α) : List (String × α) → List (String × α)
  | [] => [(k, a)]
  | (k', a') :: rest =>
    if k < k' then (k, a) :: (k', a') :: rest
    else if k = k' then (k, a) :: rest
    else (k', a') :: putAt k a rest

abbrev Ascending (l : List (String × α)) : Prop :=
  l.Pairwise fun x y => x.1 < y.1

theorem mem_putAt {k : String} {a : α} {x : String × α} {l : List (String × α)}
    (h : x ∈ putAt k a l) : x = (k, a) ∨ x ∈ l := by
  induction l with
  | nil => simp_all [putAt]
  | cons y l ih =>
    simp only [putAt] at h
    split at h
    · simp_all
    · split at h
      · rcases List.mem_cons.1 h with h | h <;> simp [h]
      · rcases List.mem_cons.1 h with h | h
        · simp [h]
        · rcases ih h with h | h <;> simp [h]

theorem lt_of_not_lt_of_ne {j k : String} (h : ¬k < j) (hne : k ≠ j) : j < k := by
  rcases String.le_total j k with hle | hle
  · exact Decidable.byContradiction fun hn => hne (String.le_antisymm hn hle)
  · exact absurd (String.le_antisymm hle h) hne

theorem Ascending.putAt {l : List (String × α)} (h : Ascending l) (k : String) (a : α) :
    Ascending (putAt k a l) := by
  induction l with
  | nil => simp [Injector.putAt]
  | cons y l ih =>
    obtain ⟨hy, hl⟩ := List.pairwise_cons.1 h
    simp only [Injector.putAt]
    split
    · next hlt =>
      refine List.pairwise_cons.2 ⟨fun x hx => ?_, h⟩
      rcases List.mem_cons.1 hx with rfl | hx
      · exact hlt
      · exact String.lt_trans hlt (hy x hx)
    · split
      · next heq => subst heq; exact List.pairwise_cons.2 ⟨hy, hl⟩
      · next hnlt hne =>
        refine List.pairwise_cons.2 ⟨fun x hx => ?_, ih hl⟩
        rcases mem_putAt hx with rfl | hx
        · exact lt_of_not_lt_of_ne hnlt hne
        · exact hy x hx

theorem lookup_cons (k : String) (e : String × α) (l : List (String × α)) :
    (e :: l).lookup k = if k = e.1 then some e.2 else l.lookup k := by
  rw [List.lookup_cons]
  by_cases h : k = e.1
  · rw [if_pos h, beq_iff_eq.2 h]
  · rw [if_neg h, beq_eq_false_iff_ne.2 h]

@[simp] theorem lookup_putAt (k k' : String) (a : α) (l : List (String × α)) :
    (putAt k' a l).lookup k = if k = k' then some a else l.lookup k := by
  induction l with
  | nil => simp [putAt, lookup_cons]
  | cons y l ih =>
    simp only [putAt]
    split
    · simp [lookup_cons]
    · split
      · next heq => rw [heq]; by_cases hk : k = y.1 <;> simp [lookup_cons, hk]
      · next hne =>
        by_cases hk : k = y.1
        · simp [lookup_cons, hk, Ne.symm hne]
        · simp [lookup_cons, hk, ih]

/-! ### Tables -/

/-- A finite map from texts, its entries in ascending key order. -/
structure Table (α : Type u) where
  entries : List (String × α)
  /-- Each key occurs once, after all smaller ones. -/
  ascending : Ascending entries

namespace Table

instance [DecidableEq α] : DecidableEq (Table α) := fun s t =>
  decidable_of_iff (s.entries = t.entries) <| by cases s; cases t; simp

instance [BEq α] : BEq (Table α) := ⟨fun s t => s.entries == t.entries⟩

instance [Repr α] : Repr (Table α) := ⟨fun t n => reprPrec t.entries n⟩

def empty : Table α := ⟨[], .nil⟩

instance : Inhabited (Table α) := ⟨empty⟩

/-- The value at key `k`. -/
def find? (t : Table α) (k : String) : Option α := t.entries.lookup k

/-- Whether key `k` has a value. -/
def contains (t : Table α) (k : String) : Bool := (t.find? k).isSome

/-- Put `a` at key `k`, in place of what was there. -/
def insert (t : Table α) (k : String) (a : α) : Table α :=
  ⟨putAt k a t.entries, t.ascending.putAt k a⟩

def keys (t : Table α) : List String := t.entries.map (·.1)

def values (t : Table α) : List α := t.entries.map (·.2)

def size (t : Table α) : Nat := t.entries.length

def isEmpty (t : Table α) : Bool := t.entries.isEmpty

/-- The table of a list of entries; of two entries with one key the later counts. -/
def ofList (l : List (String × α)) : Table α :=
  l.foldl (fun t e => t.insert e.1 e.2) empty

/-- The entries of both tables, those of the second where both have a key. -/
def override (s t : Table α) : Table α :=
  t.entries.foldl (fun s e => s.insert e.1 e.2) s

def mapValues (f : String → α → β) (t : Table α) : Table β :=
  ⟨t.entries.map fun e => (e.1, f e.1 e.2),
    List.pairwise_map.2 (t.ascending.imp fun h => h)⟩

/-- Change the value at key `k`, if there is one. -/
def adjust (t : Table α) (k : String) (f : α → α) : Table α :=
  t.mapValues fun j a => if j = k then f a else a

@[simp] theorem find?_empty (k : String) : (empty : Table α).find? k = none := rfl

@[simp] theorem find?_insert (t : Table α) (k k' : String) (a : α) :
    (t.insert k' a).find? k = if k = k' then some a else t.find? k :=
  lookup_putAt k k' a t.entries

@[simp] theorem find?_mapValues (f : String → α → β) (t : Table α) (k : String) :
    (t.mapValues f).find? k = (t.find? k).map (f k) := by
  obtain ⟨l, h⟩ := t
  simp only [find?, mapValues]
  clear h
  induction l with
  | nil => rfl
  | cons y l ih => by_cases hk : k = y.1 <;> simp_all [lookup_cons]

theorem find?_adjust (t : Table α) (k k' : String) (f : α → α) :
    (t.adjust k' f).find? k = if k = k' then (t.find? k).map f else t.find? k := by
  simp only [adjust, find?_mapValues]
  split <;> simp

theorem mem_entries_iff_find? (t : Table α) (k : String) (a : α) :
    (k, a) ∈ t.entries ↔ t.find? k = some a := by
  obtain ⟨l, h⟩ := t
  simp only [find?]
  induction l with
  | nil => simp
  | cons y l ih =>
    obtain ⟨hy, hl⟩ := List.pairwise_cons.1 h
    obtain ⟨j, b⟩ := y
    by_cases hk : k = j
    · subst hk
      have : (k, a) ∉ l := fun hc => String.lt_irrefl k (hy (k, a) hc)
      simp [this, eq_comm]
    · simp [lookup_cons, hk, ih hl]

theorem mem_keys_iff (t : Table α) (k : String) : k ∈ t.keys ↔ t.contains k = true := by
  simp only [keys, List.mem_map, contains, Option.isSome_iff_exists]
  constructor
  · rintro ⟨⟨j, a⟩, h, rfl⟩
    exact ⟨a, (t.mem_entries_iff_find? _ _).1 h⟩
  · rintro ⟨a, h⟩
    exact ⟨(k, a), (t.mem_entries_iff_find? _ _).2 h, rfl⟩

/-- Tables that answer every look-up alike are equal. -/
theorem ext_find? {s t : Table α} (h : ∀ k, s.find? k = t.find? k) : s = t := by
  obtain ⟨l, hl⟩ := s
  obtain ⟨m, hm⟩ := t
  have hmem : ∀ x, x ∈ l ↔ x ∈ m := fun ⟨k, a⟩ =>
    (mem_entries_iff_find? ⟨l, hl⟩ k a).trans <| by
      rw [h k]; exact (mem_entries_iff_find? ⟨m, hm⟩ k a).symm
  congr
  clear h
  induction l generalizing m with
  | nil => cases m with
    | nil => rfl
    | cons y m => exact absurd ((hmem y).2 (by simp)) (by simp)
  | cons x l ih =>
    cases m with
    | nil => exact absurd ((hmem x).1 (by simp)) (by simp)
    | cons y m =>
      obtain ⟨hx, hl⟩ := List.pairwise_cons.1 hl
      obtain ⟨hy, hm'⟩ := List.pairwise_cons.1 hm
      have hxy : x = y := by
        rcases List.mem_cons.1 ((hmem x).1 (by simp)) with h₁ | h₁
        · exact h₁
        rcases List.mem_cons.1 ((hmem y).2 (by simp)) with h₂ | h₂
        · exact h₂.symm
        · exact absurd (hx y h₂) (String.lt_asymm (hy x h₁))
      subst hxy
      refine congrArg _ (ih hl m hm' fun z => ?_)
      have hz := hmem z
      have hzl : z = x → z ∉ l := fun e hz => String.lt_irrefl _ (e ▸ hx z hz)
      have hzm : z = x → z ∉ m := fun e hz => String.lt_irrefl _ (e ▸ hy z hz)
      by_cases e : z = x
      · simp [hzl e, hzm e]
      · simpa [e] using hz

end Table

/-! ### Lists of texts without repetition -/

/-- The texts of a list in ascending order, each once. -/
def sortedDistinct (l : List String) : List String :=
  (Table.ofList (l.map fun k => (k, ()))).keys

theorem contains_ofList {l : List (String × α)} {k : String} :
    (Table.ofList l).contains k = true ↔ ∃ a, (k, a) ∈ l := by
  suffices h : ∀ t : Table α,
      (l.foldl (fun t e => t.insert e.1 e.2) t).contains k = true ↔
        t.contains k = true ∨ ∃ a, (k, a) ∈ l by
    simpa [Table.ofList, Table.contains] using h .empty
  induction l with
  | nil => simp
  | cons e l ih =>
    intro t
    rw [List.foldl_cons, ih, Table.contains, Table.find?_insert]
    by_cases hk : k = e.1
    · subst hk
      simp only [if_true, Option.isSome_some, true_or, true_iff]
      exact .inr ⟨e.2, List.mem_cons_self⟩
    · have hne : ∀ a, (k, a) ≠ e := fun a h => hk (congrArg Prod.fst h)
      simp [Table.contains, hk, hne]

@[simp] theorem mem_sortedDistinct {l : List String} {k : String} :
    k ∈ sortedDistinct l ↔ k ∈ l := by
  rw [sortedDistinct, Table.mem_keys_iff, contains_ofList]
  simp

/-- The items of a list, each where it first occurs. -/
def firstOccurrences (l : List String) : List String :=
  l.foldl (fun met k => if k ∈ met then met else met ++ [k]) []

@[simp] theorem mem_firstOccurrences {l : List String} {k : String} :
    k ∈ firstOccurrences l ↔ k ∈ l := by
  have fold : ∀ met : List String,
      k ∈ l.foldl (fun met k => if k ∈ met then met else met ++ [k]) met ↔ k ∈ met ∨ k ∈ l := by
    induction l with
    | nil => simp
    | cons j l ih =>
      intro met
      rw [List.foldl_cons, ih, List.mem_cons]
      by_cases hj : j ∈ met
      · rw [if_pos hj]
        constructor
        · exact Or.imp_right .inr
        · rintro (h | rfl | h)
          · exact .inl h
          · exact .inl hj
          · exact .inr h
      · rw [if_neg hj, List.mem_append, List.mem_singleton, or_assoc]
  simpa [firstOccurrences] using fold []

end Injector
