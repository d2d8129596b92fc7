import Injector.Pattern
import Mathlib.Data.List.Basic
import Mathlib.Tactic.Common

/-!
# What patterns capture

Captures are admissible for a text if they fill a pattern up to that text, none of them is empty, and
no separator that begins at a capture or later begins before the capture ends. A pattern matches a
text if it has admissible captures, and it captures those that are longest, the first placeholder
counting most.
-/

namespace Injector

/-! ### Separators -/

/-- A separator begins at place `i` of some characters. -/
def SeparatorAt (cs : List Char) (i : Nat) : Prop := pathSeparator.toList <+: cs.drop i

lemma separatorAt_append {front cs : List Char} {i : Nat} :
    SeparatorAt (front ++ cs) (front.length + i) ↔ SeparatorAt cs i := by
  rw [SeparatorAt, SeparatorAt, List.drop_length_add_append]

lemma separatorAt_zero {cs : List Char} : SeparatorAt cs 0 ↔ (afterSeparator? cs).isSome := by
  have written : pathSeparator.toList = [':', ':'] := rfl
  rw [SeparatorAt, written, List.drop_zero]
  constructor
  · rintro ⟨rest, rfl⟩
    rfl
  · intro h
    unfold afterSeparator? at h
    split at h
    · exact ⟨_, rfl⟩
    · cases h

/-- A text is as long as the characters before its first separator, if no separator begins in it. -/
lemma le_separatorIndex_iff {cs : List Char} {n : Nat} :
    n ≤ separatorIndex cs ↔ n ≤ cs.length ∧ ∀ i, SeparatorAt cs i → n ≤ i := by
  induction cs generalizing n with
  | nil =>
    have none : ∀ i, ¬SeparatorAt [] i := by
      simp [SeparatorAt, pathSeparator]
    simp [separatorIndex, none]
  | cons c cs ih =>
    have later : ∀ i, SeparatorAt (c :: cs) (i + 1) ↔ SeparatorAt cs i := fun i => Iff.rfl
    rw [separatorIndex]
    by_cases first : SeparatorAt (c :: cs) 0
    · rw [if_pos (separatorAt_zero.1 first)]
      constructor
      · intro h
        obtain rfl := Nat.le_zero.1 h
        exact ⟨Nat.zero_le _, fun i _ => Nat.zero_le i⟩
      · rintro ⟨-, h⟩
        exact h 0 first
    · rw [if_neg (mt separatorAt_zero.2 first)]
      cases n with
      | zero => simp
      | succ n =>
        rw [Nat.succ_le_succ_iff, ih, List.length_cons, Nat.succ_le_succ_iff]
        refine and_congr_right fun _ => ⟨fun h i hi => ?_, fun h i hi => ?_⟩
        · cases i with
          | zero => exact absurd hi first
          | succ i => exact Nat.succ_le_succ (h i ((later i).1 hi))
        · exact Nat.le_of_succ_le_succ (h (i + 1) ((later i).2 hi))

/-! ### Admissible captures -/

/-- The captures of some parts that begin at place `start`, each with the place where it begins. -/
def placesFrom (start : Nat) : List Segment → List (List Char) → List (Nat × List Char)
  | .literal text :: rest, captures => placesFrom (start + text.length) rest captures
  | .wildcard :: rest, capture :: captures =>
    (start, capture) :: placesFrom (start + capture.length) rest captures
  | _, _ => []

/-- The captures of a pattern, each with the place where it begins. -/
def Pattern.places (p : Pattern) (captures : List String) : List (Nat × List Char) :=
  placesFrom 0 p.segments (captures.map String.toList)

/-- Captures that a pattern may have in a text. -/
structure Pattern.Admits (p : Pattern) (s : String) (captures : List String) : Prop where
  /-- With them in the place of the placeholders, the pattern is the text. -/
  fills : p.substitute captures = some s
  nonempty : ∀ capture ∈ captures, capture ≠ ""
  /-- No separator that begins where a capture does, or later, begins before the capture ends. -/
  within : ∀ e ∈ p.places captures, ∀ i, SeparatorAt s.toList i → e.1 ≤ i → e.1 + e.2.length ≤ i

/-- Some characters, read part by part: a capture is not empty, and the first separator from its
beginning on does not begin before its end. -/
inductive Fits : List Segment → List Char → List (List Char) → Prop
  | nil : Fits [] [] []
  | literal (text : List Char) {rest : List Segment} {cs : List Char} {captures : List (List Char)}
      (tail : Fits rest cs captures) : Fits (.literal text :: rest) (text ++ cs) captures
  | wildcard {capture cs : List Char} {rest : List Segment} {captures : List (List Char)}
      (nonempty : capture ≠ []) (before : capture.length ≤ separatorIndex (capture ++ cs))
      (tail : Fits rest cs captures) :
      Fits (.wildcard :: rest) (capture ++ cs) (capture :: captures)

/-- A capture within some characters ends before any separator that does not begin before it. -/
lemma le_separatorIndex_append_iff {front capture cs : List Char} :
    capture.length ≤ separatorIndex (capture ++ cs) ↔
      ∀ i, SeparatorAt (front ++ (capture ++ cs)) i → front.length ≤ i →
        front.length + capture.length ≤ i := by
  rw [le_separatorIndex_iff, and_iff_right (by simp)]
  constructor
  · intro h i hi hle
    obtain ⟨j, rfl⟩ := Nat.exists_eq_add_of_le hle
    exact Nat.add_le_add_left (h j (separatorAt_append.1 hi)) _
  · intro h i hi
    exact Nat.le_of_add_le_add_left (h _ (separatorAt_append.2 hi) (Nat.le_add_right _ i))

/-- Reading part by part, after some characters in front, is the same as filling the parts. -/
lemma fits_iff {segments : List Segment} {cs : List Char} {captures : List (List Char)}
    (front : List Char) :
    Fits segments cs captures ↔ substituteInto segments captures = some cs ∧
      (∀ capture ∈ captures, capture ≠ []) ∧
      ∀ e ∈ placesFrom front.length segments captures, ∀ i, SeparatorAt (front ++ cs) i →
        e.1 ≤ i → e.1 + e.2.length ≤ i := by
  induction segments generalizing front cs captures with
  | nil =>
    constructor
    · rintro ⟨⟩
      simp [substituteInto, placesFrom]
    · rintro ⟨fills, -, -⟩
      cases captures with
      | nil => cases fills; exact .nil
      | cons => cases fills
  | cons segment rest ih =>
    cases segment with
    | literal text =>
      have places : placesFrom front.length (.literal text :: rest) captures =
          placesFrom (front ++ text).length rest captures := by
        rw [placesFrom, List.length_append]
      rw [places, substituteInto]
      constructor
      · rintro ⟨⟩
        next cs tail =>
        obtain ⟨fills, nonempty, within⟩ := (ih (front ++ text)).1 tail
        rw [fills, ← List.append_assoc]
        exact ⟨rfl, nonempty, within⟩
      · rintro ⟨fills, nonempty, within⟩
        obtain ⟨cs, filled, rfl⟩ := Option.map_eq_some_iff.1 fills
        rw [← List.append_assoc] at within
        exact .literal text ((ih (front ++ text)).2 ⟨filled, nonempty, within⟩)
    | wildcard =>
      cases captures with
      | nil =>
        constructor
        · rintro ⟨⟩
        · rintro ⟨⟨⟩, -⟩
      | cons capture captures =>
        have places : placesFrom front.length (.wildcard :: rest) (capture :: captures) =
            (front.length, capture) :: placesFrom (front ++ capture).length rest captures := by
          rw [placesFrom, List.length_append]
        rw [places, substituteInto, List.forall_mem_cons, List.forall_mem_cons]
        constructor
        · rintro ⟨⟩
          next cs some before tail =>
          obtain ⟨fills, nonempty, within⟩ := (ih (front ++ capture)).1 tail
          rw [List.append_assoc] at within
          rw [fills]
          exact ⟨rfl, ⟨some, nonempty⟩, le_separatorIndex_append_iff.1 before, within⟩
        · rintro ⟨fills, ⟨some, nonempty⟩, before, within⟩
          obtain ⟨cs, filled, rfl⟩ := Option.map_eq_some_iff.1 fills
          rw [← List.append_assoc] at within
          exact .wildcard some (le_separatorIndex_append_iff.2 (by simpa using before))
            ((ih (front ++ capture)).2 ⟨filled, nonempty, within⟩)

/-! ### Longest captures -/

section Lengths

variable {α : Type} {f : Nat → Option α} {m : Nat}

/-- Trying all lengths downwards finds the greatest one that succeeds. -/
lemma findSome?_lengthsFrom_eq_some {a : α} (h : (lengthsFrom m).findSome? f = some a) :
    ∃ n, 0 < n ∧ n ≤ m ∧ f n = some a ∧ ∀ k, n < k → k ≤ m → f k = none := by
  induction m with
  | zero => cases h
  | succ m ih =>
    rw [lengthsFrom, List.findSome?_cons] at h
    cases last : f (m + 1) with
    | some b =>
      rw [last] at h
      cases h
      exact ⟨m + 1, Nat.succ_pos m, Nat.le_refl _, last, fun k lt le => absurd lt (by omega)⟩
    | none =>
      rw [last] at h
      obtain ⟨n, pos, le, found, greater⟩ := ih h
      refine ⟨n, pos, by omega, found, fun k lt hk => ?_⟩
      rcases Nat.eq_or_lt_of_le hk with rfl | hk
      · exact last
      · exact greater k lt (by omega)

/-- Trying all lengths finds nothing only if none of them succeeds. -/
lemma isSome_findSome?_lengthsFrom {n : Nat} (pos : 0 < n) (le : n ≤ m) (h : (f n).isSome) :
    ((lengthsFrom m).findSome? f).isSome := by
  induction m with
  | zero => omega
  | succ m ih =>
    rw [lengthsFrom, List.findSome?_cons]
    cases last : f (m + 1) with
    | some b => rfl
    | none =>
      apply ih
      have : n ≠ m + 1 := by
        rintro rfl
        simp [last] at h
      omega

end Lengths

lemma afterChars?_eq_some_iff {text cs rest : List Char} :
    afterChars? text cs = some rest ↔ text ++ rest = cs := by
  induction text generalizing cs with
  | nil => simp [afterChars?, eq_comm]
  | cons t text ih =>
    cases cs with
    | nil => simp [afterChars?]
    | cons c cs => by_cases h : t = c <;> simp [afterChars?, h, ih]

/-- What is captured fits. -/
lemma fits_of_capturesFrom {segments : List Segment} {cs : List Char}
    {captures : List (List Char)} (h : capturesFrom segments cs = some captures) :
    Fits segments cs captures := by
  induction segments generalizing cs captures with
  | nil =>
    rw [capturesFrom] at h
    split at h
    · next empty =>
      obtain rfl := List.isEmpty_iff.1 empty
      cases h
      exact .nil
    · cases h
  | cons segment rest ih =>
    cases segment with
    | literal text =>
      obtain ⟨tail, after, found⟩ := Option.bind_eq_some_iff.1 h
      obtain rfl := afterChars?_eq_some_iff.1 after
      exact .literal text (ih found)
    | wildcard =>
      obtain ⟨n, pos, le, tried, -⟩ := findSome?_lengthsFrom_eq_some h
      obtain ⟨captures, found, rfl⟩ := Option.map_eq_some_iff.1 tried
      have whole : cs.take n ++ cs.drop n = cs := List.take_append_drop n cs
      have length : (cs.take n).length = n :=
        List.length_take_of_le (le_separatorIndex_iff.1 le).1
      have fits : Fits (.wildcard :: rest) (cs.take n ++ cs.drop n) (cs.take n :: captures) := by
        apply Fits.wildcard _ _ (ih found)
        · exact List.ne_nil_of_length_pos (length.symm ▸ pos)
        · rwa [whole, length]
      rwa [whole] at fits

/-- Whatever fits is matched. -/
lemma isSome_capturesFrom {segments : List Segment} {cs : List Char}
    {captures : List (List Char)} (h : Fits segments cs captures) :
    (capturesFrom segments cs).isSome := by
  induction h with
  | nil => rfl
  | literal text tail ih =>
    rw [capturesFrom, afterChars?_eq_some_iff.2 rfl]
    exact ih
  | @wildcard capture cs rest captures nonempty before tail ih =>
    rw [capturesFrom]
    apply isSome_findSome?_lengthsFrom (List.length_pos_iff.2 nonempty) before
    rw [List.drop_left, Option.isSome_map]
    exact ih

/-- What is captured is longer than all else that fits, the first capture counting most. -/
lemma lengths_lt_of_fits {segments : List Segment} {cs : List Char}
    {captures others : List (List Char)} (h : capturesFrom segments cs = some captures)
    (fits : Fits segments cs others) (ne : others ≠ captures) :
    others.map List.length < captures.map List.length := by
  induction fits generalizing captures with
  | nil =>
    cases h
    exact absurd rfl ne
  | literal text tail ih =>
    rw [capturesFrom, afterChars?_eq_some_iff.2 rfl] at h
    exact ih h ne
  | @wildcard other cs rest others nonempty before tail ih =>
    obtain ⟨n, pos, le, tried, greater⟩ := findSome?_lengthsFrom_eq_some h
    obtain ⟨captures, found, rfl⟩ := Option.map_eq_some_iff.1 tried
    have length : ((other ++ cs).take n).length = n :=
      List.length_take_of_le (le_separatorIndex_iff.1 le).1
    rw [List.map_cons, List.map_cons, length, List.cons_lt_cons_iff]
    rcases Nat.lt_trichotomy other.length n with lt | rfl | gt
    · exact .inl lt
    · rw [List.drop_left] at found
      rw [List.take_left] at ne
      exact .inr ⟨rfl, ih found fun same => ne (same ▸ rfl)⟩
    -- a longer capture would have been tried before
    · have failed := greater other.length gt before
      rw [List.drop_left, Option.map_eq_none_iff] at failed
      have matched := isSome_capturesFrom tail
      rw [failed] at matched
      cases matched

namespace Pattern

variable {p : Pattern} {s : String} {captures : List String}

lemma admits_iff : p.Admits s captures ↔
    Fits p.segments s.toList (captures.map String.toList) := by
  rw [fits_iff []]
  constructor
  · rintro ⟨fills, nonempty, within⟩
    obtain ⟨cs, filled, rfl⟩ := Option.map_eq_some_iff.1 fills
    refine ⟨by simpa using filled, ?_, within⟩
    simpa using nonempty
  · rintro ⟨fills, nonempty, within⟩
    refine ⟨?_, ?_, within⟩
    · rw [substitute, fills]
      simp
    · simpa using nonempty

/-- As many texts fill a pattern as it has placeholders. -/
lemma isSome_substitute : (p.substitute captures).isSome ↔ captures.length = p.placeholders := by
  have parts : ∀ (segments : List Segment) (captures : List (List Char)),
      (substituteInto segments captures).isSome ↔
        captures.length = segments.countP Segment.isWildcard := by
    intro segments captures
    induction segments, captures using substituteInto.induct with
    | case1 => simp [substituteInto]
    | case2 => simp [substituteInto]
    | case3 text rest captures ih => simp [substituteInto, ih, Segment.isWildcard]
    | case4 rest capture captures ih => simp [substituteInto, ih, List.countP_cons, Segment.isWildcard]
    | case5 => simp [substituteInto, List.countP_cons, Segment.isWildcard]
  rw [substitute, Option.isSome_map, parts, List.length_map, placeholders]

lemma Admits.length_eq (h : p.Admits s captures) : captures.length = p.placeholders :=
  isSome_substitute.1 (h.fills ▸ rfl)

lemma admits_of_captures (h : p.captures s = some captures) : p.Admits s captures := by
  obtain ⟨parts, found, rfl⟩ := Option.map_eq_some_iff.1 h
  rw [admits_iff]
  simpa using fits_of_capturesFrom found

lemma exists_captures_of_admits (h : p.Admits s captures) : ∃ found, p.captures s = some found := by
  rw [← Option.isSome_iff_exists, Pattern.captures, Option.isSome_map]
  exact isSome_capturesFrom (admits_iff.1 h)

/-- Captures that are admissible, and longer than all others that are: the first of them, or as long
and longer in the second, and so on. -/
structure Longest (p : Pattern) (s : String) (captures : List String) : Prop where
  admits : p.Admits s captures
  lt : ∀ others, p.Admits s others → others ≠ captures →
    others.map String.length < captures.map String.length

lemma longest_of_captures (h : p.captures s = some captures) : p.Longest s captures := by
  refine ⟨admits_of_captures h, fun others admits ne => ?_⟩
  obtain ⟨parts, found, rfl⟩ := Option.map_eq_some_iff.1 h
  have texts : ∀ l : List String, l.map String.length = (l.map String.toList).map List.length := by
    intro l
    rw [List.map_map]
    exact List.map_congr_left fun t _ => String.length_toList.symm
  rw [texts, texts, List.map_map (f := String.ofList), List.map_congr_left (g := id), List.map_id]
  · refine lengths_lt_of_fits found (admits_iff.1 admits) fun same => ne ?_
    rw [← same]
    simp
  · simp

/-- A text matches a pattern exactly if it has admissible captures, and then the pattern captures the
longest ones. These are as many as there are placeholders, and in their place they give the text. -/
theorem captures_iff_longest (p : Pattern) (s : String) :
    (p.captures s = none ↔ ∀ captures, ¬p.Admits s captures) ∧
      ∀ captures, p.captures s = some captures ↔ p.Longest s captures ∧
        captures.length = p.placeholders ∧ p.substitute captures = some s := by
  constructor
  · constructor
    · intro none captures admits
      obtain ⟨found, some⟩ := exists_captures_of_admits admits
      cases none.symm.trans some
    · intro none
      by_contra some
      obtain ⟨captures, found⟩ := Option.ne_none_iff_exists'.1 some
      exact none captures (admits_of_captures found)
  · intro captures
    constructor
    · intro found
      have longest := longest_of_captures found
      exact ⟨longest, longest.admits.length_eq, longest.admits.fills⟩
    · rintro ⟨longest, -, -⟩
      obtain ⟨found, some⟩ := exists_captures_of_admits longest.admits
      have longest' := longest_of_captures some
      by_cases same : found = captures
      · rw [some, same]
      · have shorter := longest.lt found longest'.admits same
        exact absurd shorter (List.lt_asymm (longest'.lt captures longest.admits (Ne.symm same)))

-- the first placeholder leaves no more to the second one than it has to
example : (Pattern.parse "*a*").toOption.bind (·.captures "aaaa") = some ["aa", "a"] := by decide

-- a separator ends the capture that it follows, though its second half may begin the next one
example : (Pattern.parse "*:*").toOption.bind (·.captures "a::b") = some ["a", ":b"] := by decide

end Pattern

end Injector
