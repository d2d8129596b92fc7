import Injector.Table
import Mathlib.Data.List.Nodup
import Mathlib.Data.List.Perm.Basic

/-!
# Tables

Looking up in a list of entries, in a table that is put together from such a list, and in a table
that overrides another one.
-/

namespace Injector

variable {α : Type*}

/-! ### Lists of entries -/

/-- What is looked up is in an entry with the key. -/
lemma mem_of_lookup {k : String} {a : α} {l : List (String × α)} (h : l.lookup k = some a) :
    (k, a) ∈ l := by
  obtain ⟨before, after, rfl, -⟩ := List.lookup_eq_some_iff.1 h
  exact List.mem_append_right before List.mem_cons_self

namespace Table

/-- Each key is listed once. -/
lemma nodup_keys (t : Table α) : t.keys.Nodup :=
  List.pairwise_map.2 (t.ascending.imp fun h => String.ne_of_lt h)

/-- Where both tables have a key, the second one counts. -/
lemma find?_override (s t : Table α) (k : String) :
    (s.override t).find? k = (t.find? k).or (s.find? k) := by
  obtain ⟨l, ascending⟩ := t
  simp only [Table.override, Table.find?]
  induction l generalizing s with
  | nil => rfl
  | cons e l ih =>
    obtain ⟨first, ascending⟩ := List.pairwise_cons.1 ascending
    have inserted : (s.insert e.1 e.2).entries.lookup k =
        if k = e.1 then some e.2 else s.entries.lookup k := s.find?_insert k e.1 e.2
    rw [List.foldl_cons, ih _ ascending, inserted, lookup_cons]
    by_cases hk : k = e.1
    · -- the keys that follow are greater
      have none : l.lookup k = none := List.lookup_eq_none_iff.2 fun e' he' => by
        have later : e.1 < e'.1 := first e' he'
        rw [hk]
        exact bne_iff_ne.2 (String.ne_of_lt later)
      rw [none, if_pos hk, if_pos hk]
      rfl
    · rw [if_neg hk, if_neg hk]

/-- A table is put together again from its entries. -/
lemma ofList_entries (t : Table α) : Table.ofList t.entries = t :=
  ext_find? fun k => by
    have := find?_override .empty t k
    rwa [find?_empty, Option.or_none] at this

end Table

/-! ### Tables of lists -/

lemma nodup_sortedDistinct (l : List String) : (sortedDistinct l).Nodup := Table.nodup_keys _

lemma find?_foldl_insert_of_not_mem {l : List (String × α)} {k : String}
    (h : k ∉ l.map (·.1)) (t : Table α) :
    (l.foldl (fun t e => t.insert e.1 e.2) t).find? k = t.find? k := by
  induction l generalizing t with
  | nil => rfl
  | cons e l ih =>
    rw [List.map_cons, List.mem_cons, not_or] at h
    rw [List.foldl_cons, ih h.2, Table.find?_insert, if_neg h.1]

/-- A table of entries with different keys has all of them. -/
lemma find?_ofList {l : List (String × α)} (nodup : (l.map (·.1)).Nodup)
    {e : String × α} (he : e ∈ l) : (Table.ofList l).find? e.1 = some e.2 := by
  rw [Table.ofList]
  generalize Table.empty = t
  induction l generalizing t with
  | nil => cases he
  | cons e' l ih =>
    rw [List.map_cons] at nodup
    obtain ⟨first, nodup⟩ := List.nodup_cons.1 nodup
    rw [List.foldl_cons]
    rcases List.mem_cons.1 he with rfl | he
    · rw [find?_foldl_insert_of_not_mem first, Table.find?_insert, if_pos rfl]
    · exact ih nodup he _

/-- A table takes in as many entries as there are different keys. -/
lemma size_ofList {l : List (String × α)} (nodup : (l.map (·.1)).Nodup) :
    (Table.ofList l).size = l.length := by
  have keys : (Table.ofList l).keys.Perm (l.map (·.1)) := by
    refine (List.perm_ext_iff_of_nodup (Table.ofList l).nodup_keys nodup).2 fun k => ?_
    rw [Table.mem_keys_iff, contains_ofList]
    simp
  calc (Table.ofList l).size = (Table.ofList l).keys.length := (List.length_map _).symm
    _ = (l.map (·.1)).length := keys.length_eq
    _ = l.length := List.length_map _

end Injector
