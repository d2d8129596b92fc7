import Injector.Proofs.Identifier.FactoryName
import Mathlib.Algebra.GroupWithZero.Nat

/-!
# Gaps in factory names

A gap is a run of characters that cannot stand in a name. A factory name is made segment by segment,
with one underscore for each gap of a segment and two between segments; but a colon that comes after
others in its gap gets an underscore of its own. So a gap becomes a single underscore exactly if it
has no colon after its first character.
-/

namespace Injector

/-! ### Gaps -/

/-- Whether a character cannot stand in a name. -/
def isGapChar (c : Char) : Bool := !isNameChar c

/-- Whether a gap goes on with a character if every colon begins a gap of its own. -/
def continuesGap (c : Char) : Bool := isGapChar c && c != ':'

/-- A text with an underscore for each gap, which is a character that cannot stand in a name and all
after it with which the gap goes on. -/
def fillGaps (goesOn : Char → Bool) : List Char → List Char
  | [] => []
  | c :: cs =>
    if isNameChar c then c :: fillGaps goesOn cs
    else '_' :: fillGaps goesOn (cs.dropWhile goesOn)
termination_by cs => cs.length
decreasing_by
  · exact Nat.lt_succ_self _
  · exact Nat.lt_succ_of_le (List.dropWhile_sublist goesOn).length_le

/-- The name of an identifier, segment by segment: gaps are filled, two underscores stand between
segments, and one in front of a digit. -/
def nameWith (goesOn : Char → Bool) (id : Identifier) : String :=
  let chars := ['_', '_'].intercalate ((segments id).map (fillGaps goesOn))
  String.ofList (if chars.head?.any Char.isDigit then '_' :: chars else chars)

/-- How many colons come right after a character that cannot stand in a name; `inGap` says whether
there is one before the text. -/
def colonsInGaps (inGap : Bool) : List Char → Nat
  | [] => 0
  | c :: cs => (if inGap && c == ':' then 1 else 0) + colonsInGaps (isGapChar c) cs

section Filling

variable {goesOn : Char → Bool} {inGap : Bool} {c : Char} {cs : List Char}

/-- What is left of a text behind the gap that it begins in, if it does. -/
def afterGap (goesOn : Char → Bool) (inGap : Bool) (cs : List Char) : List Char :=
  if inGap then cs.dropWhile goesOn else cs

/-- Character by character, a gap is filled where it begins. -/
lemma fillGaps_afterGap_cons (gaps : ∀ c, goesOn c → isGapChar c) :
    fillGaps goesOn (afterGap goesOn inGap (c :: cs)) =
      if isNameChar c then c :: fillGaps goesOn (afterGap goesOn false cs)
      else if inGap && goesOn c then fillGaps goesOn (afterGap goesOn true cs)
      else '_' :: fillGaps goesOn (afterGap goesOn true cs) := by
  have whole : fillGaps goesOn (c :: cs) =
      if isNameChar c then c :: fillGaps goesOn (afterGap goesOn false cs)
      else '_' :: fillGaps goesOn (afterGap goesOn true cs) := by
    rw [fillGaps]
    rfl
  cases inGap with
  | false => simpa [afterGap] using whole
  | true =>
    by_cases goes : goesOn c
    · have gap : isNameChar c = false := by simpa [isGapChar] using gaps c goes
      simp [afterGap, goes, gap]
    · have stay : afterGap goesOn true (c :: cs) = c :: cs := by simp [afterGap, goes]
      simp [stay, whole, goes]

lemma isGapChar_of_continuesGap (c : Char) (h : continuesGap c) : isGapChar c :=
  (Bool.and_eq_true_iff.1 h).1

/-- A character can stand in a name, or it is a colon, or a gap goes on with it in any case. -/
lemma cases_gapChar (c : Char) :
    isNameChar c ∧ c ≠ ':' ∨ c = ':' ∨ isNameChar c = false ∧ continuesGap c ∧ c ≠ ':' := by
  by_cases colon : c = ':'
  · exact .inr (.inl colon)
  · cases named : isNameChar c with
    | true => exact .inl ⟨rfl, colon⟩
    | false => exact .inr (.inr ⟨rfl, by simp [continuesGap, isGapChar, named, colon], colon⟩)

/-- With gaps that end before colons, a text only gets longer, by as many characters as there are
colons in its gaps. -/
lemma length_fillGaps (inGap : Bool) (cs : List Char) :
    (fillGaps continuesGap (afterGap continuesGap inGap cs)).length =
      (fillGaps isGapChar (afterGap isGapChar inGap cs)).length + colonsInGaps inGap cs := by
  induction cs generalizing inGap with
  | nil => cases inGap <;> simp [afterGap, fillGaps, colonsInGaps]
  | cons c cs ih =>
    have colonGap : isNameChar ':' = false := rfl
    rw [fillGaps_afterGap_cons isGapChar_of_continuesGap, fillGaps_afterGap_cons fun _ => id,
      colonsInGaps]
    rcases cases_gapChar c with ⟨named, ne⟩ | rfl | ⟨gap, goes, ne⟩
    · simp [named, ne, isGapChar, ih, Nat.add_right_comm]
    · cases inGap <;> simp [colonGap, continuesGap, isGapChar, ih] <;> omega
    · cases inGap <;> simp [gap, goes, ne, isGapChar, ih, Nat.add_right_comm]

lemma fillGaps_sublist (inGap : Bool) (cs : List Char) :
    (fillGaps isGapChar (afterGap isGapChar inGap cs)).Sublist
      (fillGaps continuesGap (afterGap continuesGap inGap cs)) := by
  induction cs generalizing inGap with
  | nil => cases inGap <;> simp [afterGap, fillGaps]
  | cons c cs ih =>
    have colonGap : isNameChar ':' = false := rfl
    rw [fillGaps_afterGap_cons isGapChar_of_continuesGap, fillGaps_afterGap_cons fun _ => id]
    rcases cases_gapChar c with ⟨named, -⟩ | rfl | ⟨gap, goes, -⟩
    · simpa [named] using ih false
    · cases inGap <;> simp [colonGap, continuesGap, isGapChar, ih]
    · cases inGap <;> simp [gap, goes, isGapChar, ih]

end Filling

/-! ### Names -/

/-- The characters of a name whose segments are given, the first of them possibly from within a
gap. -/
def joinFilled (inGap : Bool) (s : List Char) (ss : List (List Char)) : List Char :=
  ['_', '_'].intercalate
    (fillGaps continuesGap (afterGap continuesGap inGap s) :: ss.map (fillGaps continuesGap))

lemma nameChars_cons {inGap : Bool} {c : Char} {cs : List Char}
    (single : ¬(c = ':' ∧ cs.head? = some ':')) :
    nameChars inGap (c :: cs) =
      if isNameChar c then c :: nameChars false cs
      else if inGap && c != ':' then nameChars true cs
      else '_' :: nameChars true cs := by
  rw [nameChars]
  rintro rest rfl rfl
  exact single ⟨rfl, rfl⟩

/-- One more character of the first segment. -/
lemma nameChars_cons_eq_joinFilled {c : Char} {cs s : List Char} {ss : List (List Char)}
    (single : ¬(c = ':' ∧ cs.head? = some ':'))
    (others : ∀ inGap, nameChars inGap cs = joinFilled inGap s ss) (inGap : Bool) :
    nameChars inGap (c :: cs) = joinFilled inGap (c :: s) ss := by
  rw [nameChars_cons single, joinFilled, fillGaps_afterGap_cons isGapChar_of_continuesGap, others,
    others]
  rcases cases_gapChar c with ⟨named, -⟩ | rfl | ⟨gap, goes, ne⟩
  · simp [named, joinFilled]
  · simp [isNameChar, continuesGap, joinFilled]
  · cases inGap <;> simp [gap, goes, ne, joinFilled]

/-- The characters of a name are those of the segments, with the gaps filled. -/
lemma nameChars_eq_joinFilled {cs s : List Char} {ss : List (List Char)}
    (h : splitPairs ':' cs = s :: ss) (inGap : Bool) :
    nameChars inGap cs = joinFilled inGap s ss := by
  fun_induction splitPairs ':' cs generalizing s ss inGap with
  | case1 =>
    cases h
    cases inGap <;> simp [nameChars, joinFilled, afterGap, fillGaps]
  | case2 c =>
    cases h
    refine nameChars_cons_eq_joinFilled (by simp) (fun inGap => ?_) inGap
    cases inGap <;> simp [nameChars, joinFilled, afterGap, fillGaps]
  | case3 c d cs pair ih =>
    obtain ⟨rfl, rfl⟩ := pair
    cases h
    obtain ⟨t, ts, eq⟩ := List.exists_cons_of_ne_nil (splitPairs_ne_nil ':' cs)
    have none : fillGaps continuesGap (afterGap continuesGap inGap []) = [] := by
      cases inGap <;> simp [afterGap, fillGaps]
    rw [nameChars, ih eq, joinFilled, joinFilled, none, eq]
    rfl
  | case4 c d cs apart ih =>
    obtain ⟨t, ts, eq⟩ := List.exists_cons_of_ne_nil (splitPairs_ne_nil ':' (d :: cs))
    rw [eq, List.modifyHead_cons] at h
    cases h
    exact nameChars_cons_eq_joinFilled (by simpa using apart) (ih eq) inGap

/-- With gaps that end before colons, the names of identifiers are their factory names. -/
lemma factoryName_eq_nameWith (id : Identifier) : factoryName id = nameWith continuesGap id := by
  obtain ⟨s, ss, eq⟩ := List.exists_cons_of_ne_nil (segments_ne_nil id)
  have chars : nameChars false id.toList =
      ['_', '_'].intercalate ((segments id).map (fillGaps continuesGap)) := by
    rw [nameChars_eq_joinFilled eq, eq]
    rfl
  rw [← String.toList_inj, toList_factoryName, nameWith, String.toList_ofList, chars]

section Joining

variable (ss : List (List Char))

/-- A name gets longer by the colons in its gaps. -/
lemma length_intercalate_fillGaps :
    (['_', '_'].intercalate (ss.map (fillGaps continuesGap))).length =
      (['_', '_'].intercalate (ss.map (fillGaps isGapChar))).length +
        (ss.map (colonsInGaps false)).sum := by
  induction ss with
  | nil => rfl
  | cons s ss ih =>
    have first : (fillGaps continuesGap s).length =
        (fillGaps isGapChar s).length + colonsInGaps false s := length_fillGaps false s
    cases ss with
    | nil => simpa using first
    | cons t ss =>
      simp only [List.map_cons, List.intercalate_cons_cons, List.length_append,
        List.sum_cons] at ih ⊢
      omega

/-- A name begins alike however far its gaps go. -/
lemma head?_intercalate_fillGaps (goesOn : Char → Bool) :
    (['_', '_'].intercalate (ss.map (fillGaps goesOn))).head? =
      (['_', '_'].intercalate (ss.map (fillGaps isGapChar))).head? := by
  have first : ∀ s, (fillGaps goesOn s).head? = (fillGaps isGapChar s).head? := by
    intro s
    cases s with
    | nil => simp [fillGaps]
    | cons c cs =>
      rw [fillGaps, fillGaps]
      split <;> rfl
  cases ss with
  | nil => rfl
  | cons s ss =>
    cases ss with
    | nil => simpa using first s
    | cons t ss => simp [List.intercalate_cons_cons, List.head?_append, first s]

end Joining

/-- Gaps in which colons do not count are filled alike. -/
lemma fillGaps_eq_of_colonsInGaps {s : List Char} (none : colonsInGaps false s = 0) :
    fillGaps isGapChar s = fillGaps continuesGap s :=
  (fillGaps_sublist false s).eq_of_length (by rw [length_fillGaps false s, none, Nat.add_zero])

/-- A factory name has an underscore for each gap of a segment, where each colon in a gap begins one
of its own. It has a single underscore for each gap as a whole exactly if no segment has a colon
after another character of its gap. -/
theorem factoryName_eq_nameWith_iff (id : Identifier) :
    factoryName id = nameWith continuesGap id ∧
      (factoryName id = nameWith isGapChar id ↔
        ∀ s ∈ segments id, colonsInGaps false s = 0) := by
  refine ⟨factoryName_eq_nameWith id, ?_⟩
  rw [factoryName_eq_nameWith]
  constructor
  · intro same
    have chars := congrArg (List.length ∘ String.toList) same
    simp only [Function.comp_apply, nameWith, String.toList_ofList,
      head?_intercalate_fillGaps _ continuesGap] at chars
    have longer := length_intercalate_fillGaps (segments id)
    have total : ((segments id).map (colonsInGaps false)).sum = 0 := by
      split at chars
      · rw [List.length_cons, List.length_cons] at chars
        omega
      · omega
    simpa using List.sum_eq_zero_iff_forall_eq_nat.1 total
  · intro none
    have filled : (segments id).map (fillGaps isGapChar) =
        (segments id).map (fillGaps continuesGap) :=
      List.map_congr_left fun s hs => fillGaps_eq_of_colonsInGaps (none s hs)
    rw [nameWith, nameWith, filled]

/-- A colon that is no separator gets an underscore of its own. -/
theorem factoryName_colonInGap :
    factoryName "a-:b" = "a__b" ∧ nameWith isGapChar "a-:b" = "a_b" := by
  decide +kernel

end Injector
