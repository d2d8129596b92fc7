import Injector.Identifier.FactoryName
import Mathlib.Data.List.Chain
import Mathlib.Data.Set.Function

/-!
# Factory names

A factory name can stand for a method. If the segments of an identifier are words whose parts are
joined by single underscores, the name falls apart at its double underscores into the same segments,
so that the identifier can be read back from it. No two such identifiers share their factory name.
-/

namespace Injector

/-! ### Names of methods -/

/-- A text that generated code can call a method. -/
structure IsMethodName (name : String) : Prop where
  nonempty : name ≠ ""
  /-- It is made of ASCII letters, digits and underscores. -/
  chars : ∀ c ∈ name.toList, isNameChar c
  /-- It begins with no digit. -/
  front : ∀ c ∈ name.toList.head?, c.isDigit = false

lemma isNameChar_of_mem_nameChars {skipping : Bool} {l : List Char} {c : Char}
    (h : c ∈ nameChars skipping l) : isNameChar c := by
  induction skipping, l using nameChars.induct with
  | case1 => cases h
  | case2 skipping rest ih =>
    rw [nameChars] at h
    rcases List.mem_cons.1 h with rfl | h
    · rfl
    rcases List.mem_cons.1 h with rfl | h
    · rfl
    · exact ih h
  | case3 skipping c' cs _ named ih =>
    rw [nameChars, if_pos named] at h
    · rcases List.mem_cons.1 h with rfl | h
      · exact named
      · exact ih h
    · assumption
  | case4 skipping c' cs _ unnamed skips ih =>
    rw [nameChars, if_neg unnamed, if_pos skips] at h
    · exact ih h
    · assumption
  | case5 skipping c' cs _ unnamed stops ih =>
    rw [nameChars, if_neg unnamed, if_neg stops] at h
    · rcases List.mem_cons.1 h with rfl | h
      · rfl
      · exact ih h
    · assumption

/-- Nothing is passed over at the beginning of a name. -/
lemma nameChars_ne_nil {l : List Char} (h : l ≠ []) : nameChars false l ≠ [] := by
  fun_cases nameChars false l with
  | case1 => exact absurd rfl h
  | case2 | case3 | case5 => simp
  | case4 _ _ _ _ skips => simp at skips

/-- The characters of a factory name are name characters, with an underscore before a digit. -/
lemma toList_factoryName (id : Identifier) : (factoryName id).toList =
    if (nameChars false id.toList).head?.any Char.isDigit then '_' :: nameChars false id.toList
    else nameChars false id.toList := by
  rw [factoryName]
  cases nameChars false id.toList with
  | nil => rfl
  | cons c cs => by_cases digit : c.isDigit <;> simp [digit]

/-- A factory name is made of name characters. -/
lemma isNameChar_of_mem_factoryName {id : Identifier} {c : Char}
    (h : c ∈ (factoryName id).toList) : isNameChar c := by
  rw [toList_factoryName] at h
  split at h
  · rcases List.mem_cons.1 h with rfl | h
    · rfl
    · exact isNameChar_of_mem_nameChars h
  · exact isNameChar_of_mem_nameChars h

/-- Whatever has an identifier has the name of a method. -/
theorem isMethodName_factoryName {id : Identifier} (h : id ≠ "") :
    IsMethodName (factoryName id) where
  nonempty := by
    intro empty
    have chars : nameChars false id.toList ≠ [] := nameChars_ne_nil (by simpa using h)
    have list := toList_factoryName id
    rw [empty] at list
    split at list
    · cases list
    · exact chars list.symm
  chars _ := isNameChar_of_mem_factoryName
  front := by
    intro c hc
    rw [toList_factoryName] at hc
    split at hc
    · cases hc
      rfl
    · next noDigit =>
      rw [Option.mem_def.1 hc] at noDigit
      exact eq_false_of_ne_true noDigit

/-! ### Pieces between pairs of a character -/

section Pairs

variable {sep : Char} {s rest : List Char}

/-- The pieces of a text between pairs of a character, from the left. -/
def splitPairs (sep : Char) : List Char → List (List Char)
  | [] => [[]]
  | [c] => [[c]]
  | c :: d :: cs =>
    if c = sep ∧ d = sep then [] :: splitPairs sep cs
    else (splitPairs sep (d :: cs)).modifyHead (c :: ·)

/-- There is no pair of the character in a text, and none if another one follows. -/
structure IsUnpaired (sep : Char) (s : List Char) : Prop where
  single : s.IsChain fun a b => ¬(a = sep ∧ b = sep)
  back : s.getLast? ≠ some sep

lemma splitPairs_ne_nil (sep : Char) (s : List Char) : splitPairs sep s ≠ [] := by
  fun_induction splitPairs sep s with
  | case1 | case2 | case3 => simp
  | case4 c d cs _ ih =>
    obtain ⟨t, ts, eq⟩ := List.exists_cons_of_ne_nil ih
    simp [eq]

/-- The pieces joined by pairs are the text. -/
lemma intercalate_splitPairs (sep : Char) (s : List Char) :
    [sep, sep].intercalate (splitPairs sep s) = s := by
  fun_induction splitPairs sep s with
  | case1 => rfl
  | case2 c => rfl
  | case3 c d cs pair ih =>
    obtain ⟨rfl, rfl⟩ := pair
    obtain ⟨t, ts, eq⟩ := List.exists_cons_of_ne_nil (splitPairs_ne_nil d cs)
    rw [eq] at ih ⊢
    rw [List.intercalate_cons_cons, ih]
    rfl
  | case4 c d cs _ ih =>
    obtain ⟨t, ts, eq⟩ := List.exists_cons_of_ne_nil (splitPairs_ne_nil sep (d :: cs))
    rw [eq] at ih ⊢
    rw [List.modifyHead_cons, ← ih]
    cases ts with
    | nil => rfl
    | cons u us => rw [List.intercalate_cons_cons, List.intercalate_cons_cons]; rfl

lemma IsUnpaired.tail {c : Char} (h : IsUnpaired sep (c :: s)) : IsUnpaired sep s where
  single := h.single.tail
  back := by
    intro back
    apply h.back
    rw [List.getLast?_cons, back]
    rfl

/-- An unpaired text is one piece. -/
lemma IsUnpaired.splitPairs_eq (h : IsUnpaired sep s) : splitPairs sep s = [s] := by
  fun_induction splitPairs sep s with
  | case1 | case2 => rfl
  | case3 c d cs pair => exact absurd pair (List.isChain_cons_cons.1 h.single).1
  | case4 c d cs _ ih => rw [ih h.tail, List.modifyHead_cons]

/-- The first pair after an unpaired text is the one that follows it. -/
lemma IsUnpaired.splitPairs_append (h : IsUnpaired sep s) :
    splitPairs sep (s ++ sep :: sep :: rest) = s :: splitPairs sep rest := by
  induction s with
  | nil => simp [splitPairs]
  | cons c s ih =>
    have apart : ¬(c = sep ∧ (s ++ sep :: sep :: rest).head? = some sep) := by
      rintro ⟨rfl, next⟩
      cases s with
      | nil => exact h.back rfl
      | cons d s =>
        obtain rfl : d = c := by simpa using next
        exact (List.isChain_cons_cons.1 h.single).1 ⟨rfl, rfl⟩
    obtain ⟨d, cs, eq⟩ : ∃ d cs, s ++ sep :: sep :: rest = d :: cs :=
      List.exists_cons_of_ne_nil (by simp)
    have whole : splitPairs sep (d :: cs) = s :: splitPairs sep rest := eq ▸ ih h.tail
    rw [eq] at apart
    rw [List.cons_append, eq, splitPairs, if_neg (by simpa using apart), whole,
      List.modifyHead_cons]

/-- Unpaired pieces are found again between the pairs. -/
lemma splitPairs_intercalate {pieces : List (List Char)} (some : pieces ≠ [])
    (unpaired : ∀ s ∈ pieces, IsUnpaired sep s) :
    splitPairs sep ([sep, sep].intercalate pieces) = pieces := by
  induction pieces with
  | nil => exact absurd rfl some
  | cons s pieces ih =>
    have first := unpaired s List.mem_cons_self
    cases pieces with
    | nil => simpa using first.splitPairs_eq
    | cons t pieces =>
      have others := ih (by simp) fun u hu => unpaired u (List.mem_cons_of_mem s hu)
      rw [List.intercalate_cons_cons, List.append_assoc, List.cons_append, List.cons_append,
        List.nil_append, first.splitPairs_append, others]

end Pairs

/-! ### Conventional identifiers -/

/-- Name characters, with underscores only between others and never two in a row. -/
structure IsWord (s : List Char) : Prop extends IsUnpaired '_' s where
  nonempty : s ≠ []
  chars : ∀ c ∈ s, isNameChar c
  front : s.head? ≠ some '_'

/-- The segments of an identifier. -/
def segments (id : Identifier) : List (List Char) := splitPairs ':' id.toList

/-- The segments of an identifier are words. -/
def IsConventional (id : Identifier) : Prop := ∀ s ∈ segments id, IsWord s

instance (s : List Char) : Decidable (IsWord s) :=
  decidable_of_iff ((s.IsChain (fun a b => ¬(a = '_' ∧ b = '_')) ∧ s.getLast? ≠ some '_') ∧
      s ≠ [] ∧ s.all isNameChar ∧ s.head? ≠ some '_')
    ⟨fun ⟨⟨single, back⟩, nonempty, chars, front⟩ =>
      ⟨⟨single, back⟩, nonempty, List.all_eq_true.1 chars, front⟩,
      fun h => ⟨⟨h.single, h.back⟩, h.nonempty, List.all_eq_true.2 h.chars, h.front⟩⟩

instance (id : Identifier) : Decidable (IsConventional id) :=
  inferInstanceAs (Decidable (∀ s ∈ segments id, IsWord s))

lemma intercalate_segments (id : Identifier) : [':', ':'].intercalate (segments id) = id.toList :=
  intercalate_splitPairs ':' id.toList

lemma segments_ne_nil (id : Identifier) : segments id ≠ [] := splitPairs_ne_nil ':' id.toList

lemma segments_injective : Function.Injective segments := by
  intro id id' h
  rw [← String.toList_inj, ← intercalate_segments, ← intercalate_segments, h]

namespace IsWord

variable {s : List Char} (h : IsWord s)
include h

lemma ne_colon {c : Char} (hc : c ∈ s) : c ≠ ':' := by
  rintro rfl
  exact absurd (h.chars _ hc) (by decide)

lemma isUnpaired_colon : IsUnpaired ':' s where
  single := by
    apply List.isChain_iff_forall_rel_of_append_cons_cons.2
    intro a b before after eq pair
    exact h.ne_colon (by simp [eq]) pair.1
  back := by
    intro back
    exact h.ne_colon (List.mem_of_getLast? back) rfl

/-- A word stands in a name as it is. -/
lemma nameChars_append (rest : List Char) :
    nameChars false (s ++ rest) = s ++ nameChars false rest := by
  have plain : ∀ t, (∀ c ∈ t, isNameChar c ∧ c ≠ ':') →
      nameChars false (t ++ rest) = t ++ nameChars false rest := by
    intro t ht
    induction t with
    | nil => rfl
    | cons c t ih =>
      obtain ⟨named, ne⟩ := ht c List.mem_cons_self
      have others := ih fun c' hc' => ht c' (List.mem_cons_of_mem c hc')
      rw [List.cons_append, nameChars, if_pos named, others, List.cons_append]
      exact fun _ eq _ => ne eq
  exact plain s fun c hc => ⟨h.chars c hc, h.ne_colon hc⟩

end IsWord

lemma nameChars_intercalate {ss : List (List Char)} (words : ∀ s ∈ ss, IsWord s) :
    nameChars false ([':', ':'].intercalate ss) = ['_', '_'].intercalate ss := by
  induction ss with
  | nil => rfl
  | cons s ss ih =>
    have word := words s List.mem_cons_self
    have others := ih fun t ht => words t (List.mem_cons_of_mem s ht)
    cases ss with
    | nil => simpa [nameChars] using word.nameChars_append []
    | cons t ss =>
      rw [List.intercalate_cons_cons, List.intercalate_cons_cons, List.append_assoc,
        word.nameChars_append, List.cons_append, List.cons_append, List.nil_append, nameChars,
        others, List.append_assoc]
      rfl

namespace IsConventional

variable {id id' : Identifier} (h : IsConventional id)
include h

lemma nameChars_eq : nameChars false id.toList = ['_', '_'].intercalate (segments id) := by
  rw [← intercalate_segments, nameChars_intercalate h]

/-- No underscore comes first until one is put before a digit. -/
lemma head?_nameChars_ne : (nameChars false id.toList).head? ≠ some '_' := by
  obtain ⟨s, ss, eq⟩ := List.exists_cons_of_ne_nil (segments_ne_nil id)
  have word : IsWord s := h s (eq ▸ List.mem_cons_self)
  obtain ⟨c, cs, rfl⟩ := List.exists_cons_of_ne_nil word.nonempty
  rw [h.nameChars_eq, eq]
  cases ss with
  | nil => simpa using word.front
  | cons t ss => simpa [List.intercalate_cons_cons] using word.front

lemma ne_empty : id ≠ "" := by
  rintro rfl
  exact (h [] (by decide)).nonempty rfl

end IsConventional

/-- The pieces of a name between its double underscores. One underscore may come first. -/
def nameSegments (name : String) : List (List Char) :=
  splitPairs '_' <| match name.toList with
    | '_' :: cs => cs
    | cs => cs

/-- The segments of a conventional identifier can be read from its factory name. -/
theorem nameSegments_factoryName {id : Identifier} (h : IsConventional id) :
    nameSegments (factoryName id) = segments id := by
  have names : splitPairs '_' (nameChars false id.toList) = segments id := by
    rw [h.nameChars_eq]
    exact splitPairs_intercalate (segments_ne_nil id) fun s hs => (h s hs).toIsUnpaired
  rw [nameSegments, toList_factoryName]
  split_ifs with digit
  · exact names
  · have front := h.head?_nameChars_ne
    cases chars : nameChars false id.toList with
    | nil => rw [← names, chars]
    | cons c cs =>
      rw [chars] at names front
      split
      · next eq => exact absurd (congrArg List.head? eq) front
      · exact names

theorem injOn_factoryName : Set.InjOn factoryName {id | IsConventional id} := by
  intro id h id' h' eq
  apply segments_injective
  rw [← nameSegments_factoryName h, ← nameSegments_factoryName h', eq]

/-- The separator matters: a pair of underscores reads as one. -/
example : factoryName "app::Job" = factoryName "app__Job" ∧ ¬IsConventional "app__Job" := by
  decide +kernel

/-! ### Identifiers in a module -/

/-- An identifier in the module of another one. -/
def inModule (id : Identifier) (word : String) : Identifier := id ++ pathSeparator ++ word

lemma toList_inModule (id : Identifier) (word : String) :
    (inModule id word).toList = id.toList ++ ':' :: ':' :: word.toList := by
  simp [inModule, pathSeparator]

/-- A last piece is joined to the others. -/
lemma intercalate_concat {α : Type*} (sep last : List α) {ls : List (List α)} (some : ls ≠ []) :
    sep.intercalate (ls ++ [last]) = sep.intercalate ls ++ sep ++ last := by
  induction ls with
  | nil => exact absurd rfl some
  | cons l ls ih =>
    cases ls with
    | nil => simp [List.intercalate_cons_cons]
    | cons l' ls =>
      have others := ih (by simp)
      rw [List.cons_append] at others
      simp only [List.cons_append, List.intercalate_cons_cons, others, List.append_assoc]

namespace IsConventional

variable {id : Identifier} (h : IsConventional id) {word : String} (hw : IsWord word.toList)
include h hw

lemma segments_inModule : segments (inModule id word) = segments id ++ [word.toList] := by
  have unpaired : ∀ s ∈ segments id ++ [word.toList], IsUnpaired ':' s := by
    intro s hs
    rcases List.mem_append.1 hs with hs | hs
    · exact (h s hs).isUnpaired_colon
    · exact (List.mem_singleton.1 hs ▸ hw).isUnpaired_colon
  have whole := splitPairs_intercalate (by simp) unpaired
  rw [intercalate_concat _ _ (segments_ne_nil id), intercalate_segments] at whole
  rw [segments, toList_inModule]
  simpa using whole

protected lemma inModule : IsConventional (inModule id word) := by
  intro s hs
  rw [h.segments_inModule hw] at hs
  rcases List.mem_append.1 hs with hs | hs
  · exact h s hs
  · exact List.mem_singleton.1 hs ▸ hw

/-- The name of what is in a module begins with the name of the module. -/
lemma factoryName_inModule : factoryName (inModule id word) = factoryName id ++ "__" ++ word := by
  have chars : nameChars false (inModule id word).toList =
      nameChars false id.toList ++ '_' :: '_' :: word.toList := by
    rw [(h.inModule hw).nameChars_eq, h.segments_inModule hw,
      intercalate_concat _ _ (segments_ne_nil id), h.nameChars_eq]
    simp
  have some : nameChars false id.toList ≠ [] := nameChars_ne_nil (by simpa using h.ne_empty)
  have front : (nameChars false (inModule id word).toList).head? =
      (nameChars false id.toList).head? := by
    rw [chars, List.head?_append_of_ne_nil _ some]
  rw [← String.toList_inj, String.toList_append, String.toList_append, toList_factoryName,
    toList_factoryName, front, chars]
  split <;> simp

end IsConventional

end Injector
