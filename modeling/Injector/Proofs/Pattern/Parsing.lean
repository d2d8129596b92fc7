import Injector.Proofs.Pattern.Captures
import Mathlib.Data.List.Chain
import Mathlib.Data.List.Infix

/-!
# Which texts are patterns

A text is a pattern if it is not empty and no two placeholders stand side by side in it. Its parts
are the only ones that are written as the text in which placeholders and literals alternate, where a
literal is not empty and has no placeholder in it.
-/

namespace Injector

namespace Segment

/-- Parts in which placeholders alternate with literals that are not empty and have no placeholder
in them. -/
structure IsCanonical (parts : List Segment) : Prop where
  literals : ∀ text, .literal text ∈ parts → text ≠ [] ∧ placeholder ∉ text
  alternate : parts.IsChain fun a b => a.isWildcard ≠ b.isWildcard

/-! ### The parts of a text -/

variable {c : Char} {cs text : List Char} {parts : List Segment}

lemma ofChars_placeholder (cs : List Char) :
    ofChars (placeholder :: cs) = .wildcard :: ofChars cs := by
  rw [ofChars, if_pos rfl]

/-- A character that is no placeholder belongs to a literal. -/
lemma cases_ofChars_cons (h : c ≠ placeholder) (cs : List Char) :
    (∃ text rest, ofChars cs = .literal text :: rest ∧
      ofChars (c :: cs) = .literal (c :: text) :: rest) ∨
    (∀ text rest, ofChars cs ≠ .literal text :: rest) ∧
      ofChars (c :: cs) = .literal [c] :: ofChars cs := by
  rw [ofChars, if_neg h]
  split
  · next text rest eq => exact .inl ⟨text, rest, eq, rfl⟩
  · next other => exact .inr ⟨other, rfl⟩

/-- The parts of a text are written as the text. -/
lemma flatMap_chars_ofChars (cs : List Char) : (ofChars cs).flatMap chars = cs := by
  induction cs with
  | nil => rfl
  | cons c cs ih =>
    by_cases h : c = placeholder
    · rw [h, ofChars_placeholder, List.flatMap_cons, ih]
      rfl
    · rcases cases_ofChars_cons h cs with ⟨text, rest, eq, eq'⟩ | ⟨-, eq'⟩
      · rw [eq, List.flatMap_cons] at ih
        rw [eq', List.flatMap_cons, chars, List.cons_append]
        exact congrArg (c :: ·) ih
      · rw [eq', List.flatMap_cons, ih]
        rfl

lemma ofChars_eq_nil_iff : ofChars cs = [] ↔ cs = [] := by
  constructor
  · intro h
    rw [← flatMap_chars_ofChars cs, h]
    rfl
  · rintro rfl
    rfl

lemma of_literal_mem_ofChars (h : .literal text ∈ ofChars cs) : text ≠ [] ∧ placeholder ∉ text := by
  induction cs generalizing text with
  | nil => cases h
  | cons c cs ih =>
    by_cases hc : c = placeholder
    · rw [hc, ofChars_placeholder] at h
      exact ih ((List.mem_cons.1 h).resolve_left nofun)
    · have ne : placeholder ≠ c := Ne.symm hc
      rcases cases_ofChars_cons hc cs with ⟨front, rest, eq, eq'⟩ | ⟨-, eq'⟩
      · rw [eq'] at h
        rcases List.mem_cons.1 h with h | h
        · cases h
          have others := (ih (eq ▸ List.mem_cons_self)).2
          exact ⟨List.cons_ne_nil _ _, by simpa [ne] using others⟩
        · exact ih (eq ▸ List.mem_cons_of_mem _ h)
      · rw [eq'] at h
        rcases List.mem_cons.1 h with h | h
        · cases h
          exact ⟨List.cons_ne_nil _ _, by simpa using ne⟩
        · exact ih h

/-- No two parts of a text are literals side by side. -/
lemma isChain_ofChars (cs : List Char) :
    (ofChars cs).IsChain fun a b => a.isWildcard ∨ b.isWildcard := by
  induction cs with
  | nil => exact List.isChain_nil
  | cons c cs ih =>
    by_cases hc : c = placeholder
    · rw [hc, ofChars_placeholder]
      exact List.isChain_cons.2 ⟨fun _ _ => .inl rfl, ih⟩
    · rcases cases_ofChars_cons hc cs with ⟨text, rest, eq, eq'⟩ | ⟨other, eq'⟩
      · rw [eq', List.isChain_cons]
        rw [eq, List.isChain_cons] at ih
        exact ih
      · rw [eq', List.isChain_cons]
        refine ⟨fun b hb => .inr ?_, ih⟩
        obtain ⟨rest, eq⟩ := List.head?_eq_some_iff.1 hb
        cases b with
        | literal text => exact absurd eq (other text rest)
        | wildcard => rfl

lemma head?_ofChars_eq_wildcard_iff :
    (ofChars cs).head? = some .wildcard ↔ cs.head? = some placeholder := by
  cases cs with
  | nil => simp [ofChars]
  | cons c cs =>
    by_cases hc : c = placeholder
    · simp [hc, ofChars_placeholder]
    · rcases cases_ofChars_cons hc cs with ⟨text, rest, -, eq'⟩ | ⟨-, eq'⟩ <;> simp [eq', hc]

lemma hasAdjacentWildcards_cons (a : Segment) (parts : List Segment) :
    hasAdjacentWildcards (a :: parts) ↔
      a = .wildcard ∧ parts.head? = some .wildcard ∨ hasAdjacentWildcards parts := by
  cases a with
  | literal => simp [hasAdjacentWildcards]
  | wildcard =>
    cases parts with
    | nil => simp [hasAdjacentWildcards]
    | cons b parts => cases b <;> simp [hasAdjacentWildcards]

/-- Two placeholders side by side are two in the text. -/
lemma hasAdjacentWildcards_ofChars :
    hasAdjacentWildcards (ofChars cs) ↔ [placeholder, placeholder] <:+: cs := by
  induction cs with
  | nil => simp [ofChars, hasAdjacentWildcards]
  | cons c cs ih =>
    have front : [placeholder, placeholder] <+: c :: cs ↔
        c = placeholder ∧ cs.head? = some placeholder := by
      cases cs <;> simp [List.cons_prefix_cons, eq_comm]
    rw [List.infix_cons_iff, ← ih, front]
    by_cases hc : c = placeholder
    · rw [hc, ofChars_placeholder, hasAdjacentWildcards_cons, head?_ofChars_eq_wildcard_iff]
      simp
    · rcases cases_ofChars_cons hc cs with ⟨text, rest, eq, eq'⟩ | ⟨-, eq'⟩
      · rw [eq, eq', hasAdjacentWildcards_cons, hasAdjacentWildcards_cons]
        simp [hc]
      · rw [eq', hasAdjacentWildcards_cons]
        simp [hc]

lemma countP_isWildcard_ofChars (cs : List Char) :
    (ofChars cs).countP isWildcard = cs.count placeholder := by
  induction cs with
  | nil => rfl
  | cons c cs ih =>
    by_cases hc : c = placeholder
    · rw [hc, ofChars_placeholder, List.countP_cons, List.count_cons, ih]
      simp [isWildcard]
    · rcases cases_ofChars_cons hc cs with ⟨text, rest, eq, eq'⟩ | ⟨-, eq'⟩
      · rw [eq] at ih
        rw [eq', List.count_cons_of_ne hc, ← ih]
        rfl
      · rw [eq', List.count_cons_of_ne hc, ← ih]
        rfl

/-! ### Canonical parts -/

/-- Parts alternate if neither two literals nor two placeholders stand side by side. -/
lemma alternate_iff : parts.IsChain (fun a b => a.isWildcard ≠ b.isWildcard) ↔
    parts.IsChain (fun a b => a.isWildcard ∨ b.isWildcard) ∧
      hasAdjacentWildcards parts = false := by
  induction parts with
  | nil => simp [hasAdjacentWildcards]
  | cons a parts ih =>
    have adjacent := hasAdjacentWildcards_cons a parts
    rw [List.isChain_cons, List.isChain_cons, ih, ← Bool.not_eq_true, ← Bool.not_eq_true, adjacent]
    cases parts with
    | nil => simp
    | cons b parts => cases a <;> cases b <;> simp [isWildcard]

lemma isCanonical_ofChars (apart : hasAdjacentWildcards (ofChars cs) = false) :
    IsCanonical (ofChars cs) where
  literals _ := of_literal_mem_ofChars
  alternate := alternate_iff.2 ⟨isChain_ofChars cs, apart⟩

lemma ofChars_append_literal (some : text ≠ []) (free : placeholder ∉ text)
    (other : ∀ t rest, ofChars cs ≠ .literal t :: rest) :
    ofChars (text ++ cs) = .literal text :: ofChars cs := by
  induction text with
  | nil => exact absurd rfl some
  | cons c text ih =>
    obtain ⟨ne, free⟩ := List.ne_and_not_mem_of_not_mem_cons free
    cases text with
    | nil =>
      rcases cases_ofChars_cons (Ne.symm ne) cs with ⟨t, rest, eq, -⟩ | ⟨-, eq'⟩
      · exact absurd eq (other t rest)
      · exact eq'
    | cons d text =>
      have others := ih (List.cons_ne_nil d text) free
      rcases cases_ofChars_cons (Ne.symm ne) (d :: text ++ cs) with ⟨t, rest, eq, eq'⟩ | ⟨none, -⟩
      · cases others.symm.trans eq
        exact eq'
      · exact absurd others (none _ _)

/-- Canonical parts are found again in what they are written as. -/
lemma IsCanonical.ofChars_flatMap_chars (h : IsCanonical parts) :
    ofChars (parts.flatMap chars) = parts := by
  induction parts with
  | nil => rfl
  | cons a parts ih =>
    obtain ⟨next, alternate⟩ := List.isChain_cons.1 h.alternate
    have others := ih ⟨fun text ht => h.literals text (List.mem_cons_of_mem a ht), alternate⟩
    rw [List.flatMap_cons]
    cases a with
    | wildcard => rw [chars, List.singleton_append, ofChars_placeholder, others]
    | literal text =>
      obtain ⟨some, free⟩ := h.literals text List.mem_cons_self
      rw [chars, ofChars_append_literal some free, others]
      rw [others]
      rintro t rest rfl
      exact next _ rfl rfl

end Segment

/-! ### Patterns -/

namespace Pattern

variable {p : Pattern} {s : String}

/-- A text is no pattern because it is empty, or because of placeholders side by side. -/
lemma parse_eq (s : String) : parse s =
    if s = "" then .error (.config .emptyPattern)
    else if [placeholder, placeholder] <:+: s.toList then
      .error (.config (.adjacentPlaceholders s))
    else .ok ⟨Segment.ofChars s.toList⟩ := by
  have empty : (Segment.ofChars s.toList).isEmpty ↔ s = "" := by
    rw [List.isEmpty_iff, Segment.ofChars_eq_nil_iff, String.toList_eq_nil_iff]
  rw [parse]
  simp only [empty, Segment.hasAdjacentWildcards_ofChars]

lemma parse_eq_ok_iff : parse s = .ok p ↔
    s ≠ "" ∧ ¬[placeholder, placeholder] <:+: s.toList ∧ p = ⟨Segment.ofChars s.toList⟩ := by
  rw [parse_eq]
  split_ifs with empty adjacent
  · simp [empty]
  · simp [adjacent]
  · simp [empty, adjacent, eq_comm]

lemma isCanonical_of_parse (h : parse s = .ok p) :
    p.segments ≠ [] ∧ Segment.IsCanonical p.segments ∧ p.text = s := by
  obtain ⟨some, apart, rfl⟩ := parse_eq_ok_iff.1 h
  refine ⟨?_, Segment.isCanonical_ofChars ?_, ?_⟩
  · rwa [Ne, Segment.ofChars_eq_nil_iff, String.toList_eq_nil_iff]
  · rwa [← Bool.not_eq_true, Segment.hasAdjacentWildcards_ofChars]
  · rw [text, Segment.flatMap_chars_ofChars, String.ofList_toList]

lemma parse_of_isCanonical (some : p.segments ≠ []) (canonical : Segment.IsCanonical p.segments) :
    parse p.text = .ok p := by
  have parts : Segment.ofChars p.text.toList = p.segments := by
    rw [text, String.toList_ofList, canonical.ofChars_flatMap_chars]
  refine parse_eq_ok_iff.2 ⟨?_, ?_, ?_⟩
  · rw [← parts] at some
    rwa [Ne, Segment.ofChars_eq_nil_iff, String.toList_eq_nil_iff] at some
  · rw [← Segment.hasAdjacentWildcards_ofChars, parts, Bool.not_eq_true]
    exact (Segment.alternate_iff.1 canonical.alternate).2
  · rw [parts]

/-- A text is a pattern if it is not empty and no two placeholders stand side by side in it. The
pattern is the only one whose parts are canonical and that is written as the text; it has the
placeholders of the text, and as many captures can be put in their place. -/
theorem parse_iff_canonical (s : String) :
    ((∃ p, parse s = .ok p) ↔ s ≠ "" ∧ ¬[placeholder, placeholder] <:+: s.toList) ∧
      (∀ p, parse s = .ok p ↔
        p.segments ≠ [] ∧ Segment.IsCanonical p.segments ∧ p.text = s) ∧
      ∀ p, parse s = .ok p → p.placeholders = s.toList.count placeholder ∧
        ∀ captures, (p.substitute captures).isSome ↔
          captures.length = s.toList.count placeholder := by
  refine ⟨?_, fun p => ⟨isCanonical_of_parse, ?_⟩, fun p h => ?_⟩
  · simp [parse_eq_ok_iff]
  · rintro ⟨some, canonical, rfl⟩
    exact parse_of_isCanonical some canonical
  · have placeholders : p.placeholders = s.toList.count placeholder := by
      obtain ⟨-, -, rfl⟩ := parse_eq_ok_iff.1 h
      exact Segment.countP_isWildcard_ofChars s.toList
    exact ⟨placeholders, fun captures => placeholders ▸ isSome_substitute⟩

/-- The parts of a pattern for repositories. -/
theorem parse_iff_canonical_repository :
    let p : Pattern := ⟨[.wildcard, .literal "::Sql".toList, .wildcard]⟩
    parse "*::Sql*" = .ok p ∧ Segment.IsCanonical p.segments ∧ p.text = "*::Sql*" ∧
      p.placeholders = 2 ∧ (p.substitute ["app", "Users"]).isSome ∧
      ¬(p.substitute ["app"]).isSome := by
  have parsed : parse "*::Sql*" = .ok ⟨[.wildcard, .literal "::Sql".toList, .wildcard]⟩ := by
    decide +kernel
  obtain ⟨-, only, filled⟩ := parse_iff_canonical "*::Sql*"
  obtain ⟨-, canonical, written⟩ := (only _).1 parsed
  obtain ⟨count, fills⟩ := filled _ parsed
  exact ⟨parsed, canonical, written, count, (fills _).2 (by decide), mt (fills _).1 (by decide)⟩

end Pattern

end Injector
