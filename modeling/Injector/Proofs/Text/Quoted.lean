import Injector.Document.Json.Reader
import Injector.Text.Quoted
import Mathlib.Data.List.Basic
import Mathlib.Tactic.Common

/-!
# Quoted texts end where they end

The first quote of a quoted text that no backslash stands before is its last character, and each
character of the text can be read from what it is written as. So a quoted text can be told from all
that follows it, and no other text is quoted alike.
-/

namespace Injector

open Json (hexDigit?)

/-! ### Hexadecimal digits -/

def isHexDigit (c : Char) : Bool := (hexDigit? c).isSome

/-- The number that hexadecimal digits stand for. -/
def hexNumber (ds : List Char) : Nat := ds.foldl (fun n d => n * 16 + (hexDigit? d).getD 0) 0

lemma hexDigit?_digitChar {n : Nat} (small : n < 16) : hexDigit? n.digitChar = some n := by
  have digits : ∀ n < 16, hexDigit? n.digitChar = some n := by decide
  exact digits n small

lemma hexNumber_toDigits (n : Nat) : hexNumber (Nat.toDigits 16 n) = n := by
  induction n using Nat.strongRecOn with
  | _ n ih =>
    by_cases small : n < 16
    · rw [Nat.toDigits_of_lt_base small]
      simp [hexNumber, hexDigit?_digitChar small]
    · have front := ih (n / 16) (by omega)
      rw [Nat.toDigits_of_base_le (by decide) (by omega), hexNumber, List.foldl_append]
      rw [hexNumber] at front
      rw [front, List.foldl_cons, List.foldl_nil, hexDigit?_digitChar (by omega), Option.getD_some]
      omega

lemma isHexDigit_of_mem_toDigits {n : Nat} {c : Char} (h : c ∈ Nat.toDigits 16 n) :
    isHexDigit c := by
  induction n using Nat.strongRecOn with
  | _ n ih =>
    have last : ∀ m < 16, isHexDigit m.digitChar := fun m small => by
      rw [isHexDigit, hexDigit?_digitChar small]
      rfl
    by_cases small : n < 16
    · rw [Nat.toDigits_of_lt_base small, List.mem_singleton] at h
      exact h ▸ last n small
    · rw [Nat.toDigits_of_base_le (by decide) (by omega), List.mem_append,
        List.mem_singleton] at h
      rcases h with h | rfl
      · exact ih (n / 16) (by omega) h
      · exact last (n % 16) (by omega)

/-! ### Reading one character -/

/-- The character that a part of a quoted text begins with, and what follows it. -/
def unescape? : List Char → Option (Char × List Char)
  | '\\' :: '0' :: cs => some ('\x00', cs)
  | '\\' :: 't' :: cs => some ('\t', cs)
  | '\\' :: 'n' :: cs => some ('\n', cs)
  | '\\' :: 'r' :: cs => some ('\r', cs)
  | '\\' :: '"' :: cs => some ('"', cs)
  | '\\' :: '\\' :: cs => some ('\\', cs)
  | '\\' :: 'u' :: '\x7b' :: cs =>
    some (Char.ofNat (hexNumber (cs.takeWhile isHexDigit)), (cs.dropWhile isHexDigit).tail)
  | '"' :: _ => none
  | '\\' :: _ => none
  | c :: cs => some (c, cs)
  | [] => none

lemma unescape?_codePointEscape (c : Char) (cs : List Char) :
    unescape? (codePointEscape c ++ cs) = some (c, cs) := by
  have digits : ∀ d ∈ Nat.toDigits 16 c.toNat, isHexDigit d := fun d => isHexDigit_of_mem_toDigits
  have brace : isHexDigit '\x7d' = false := rfl
  simp [codePointEscape, unescape?, List.takeWhile_append_of_pos digits,
    List.dropWhile_append_of_pos digits, brace, hexNumber_toDigits]

/-- Each character of a text is read from what it is written as. -/
lemma unescape?_escapeChar (c : Char) (cs : List Char) :
    unescape? (escapeChar c ++ cs) = some (c, cs) := by
  unfold escapeChar
  -- six characters have an escape of their own
  iterate 6
    split
    · next h => subst h; rfl
  split
  · exact unescape?_codePointEscape c cs
  · next backslash _ =>
    rw [List.singleton_append, unescape?.eq_def]
    simp [backslash]

/-! ### Where a quoted text ends -/

/-- What follows the first quote of a text. A backslash takes the character after it along, so that
this one is not met. -/
def afterQuote? : List Char → Option (List Char)
  | [] => none
  | '"' :: cs => some cs
  | '\\' :: _ :: cs => afterQuote? cs
  | _ :: cs => afterQuote? cs

/-- What follows the quoted text that a text begins with. -/
def afterQuoted? : List Char → Option (List Char)
  | '"' :: cs => afterQuote? cs
  | _ => none

lemma afterQuote?_append {front : List Char} (plain : ∀ c ∈ front, c ≠ '"' ∧ c ≠ '\\')
    (cs : List Char) : afterQuote? (front ++ cs) = afterQuote? cs := by
  induction front with
  | nil => rfl
  | cons c front ih =>
    obtain ⟨quote, backslash⟩ := plain c List.mem_cons_self
    rw [List.cons_append, afterQuote?.eq_def]
    simp [backslash, ih fun d hd => plain d (List.mem_cons_of_mem c hd)]

lemma afterQuote?_codePointEscape (c : Char) (cs : List Char) :
    afterQuote? (codePointEscape c ++ cs) = afterQuote? cs := by
  have plain : ∀ d ∈ '\x7b' :: (Nat.toDigits 16 c.toNat ++ ['\x7d']), d ≠ '"' ∧ d ≠ '\\' := by
    intro d hd
    rw [List.mem_cons, List.mem_append, List.mem_singleton] at hd
    rcases hd with rfl | hd | rfl
    · decide
    · have hex := isHexDigit_of_mem_toDigits hd
      constructor <;> rintro rfl <;> cases hex
    · decide
  simpa [codePointEscape, afterQuote?] using afterQuote?_append plain cs

lemma afterQuote?_escapeChar (c : Char) (cs : List Char) :
    afterQuote? (escapeChar c ++ cs) = afterQuote? cs := by
  unfold escapeChar
  iterate 6
    split
    · rfl
  split
  · exact afterQuote?_codePointEscape c cs
  · next quote backslash _ => exact afterQuote?_append (by simp [quote, backslash]) cs

lemma afterQuote?_escapeChars (s rest : List Char) :
    afterQuote? (escapeChars s ++ '"' :: rest) = some rest := by
  induction s with
  | nil => rfl
  | cons c s ih =>
    rw [escapeChars, List.flatMap_cons, List.append_assoc, afterQuote?_escapeChar]
    exact ih

lemma toList_quoted_append (s : String) (rest : List Char) :
    (quoted s).toList ++ rest = '"' :: (escapeChars s.toList ++ '"' :: rest) := by
  simp [quoted]

/-- A quoted text ends with its last quote. -/
theorem afterQuoted?_quoted (s : String) (rest : List Char) :
    afterQuoted? ((quoted s).toList ++ rest) = some rest := by
  rw [toList_quoted_append, afterQuoted?, afterQuote?_escapeChars]

/-! ### A quoted text stands on one line -/

lemma newline_not_mem_escapeChar (c : Char) : '\n' ∉ escapeChar c := by
  unfold escapeChar
  iterate 2
    split
    · decide
  split
  · decide
  · next feed =>
    iterate 3
      split
      · decide
    split
    · intro mem
      have digit : '\n' ∈ Nat.toDigits 16 c.toNat := by simpa [codePointEscape] using mem
      cases isHexDigit_of_mem_toDigits digit
    · simpa using fun eq => feed eq.symm

lemma newline_not_mem_quoted (s : String) : '\n' ∉ (quoted s).toList := by
  simp [quoted, escapeChars, newline_not_mem_escapeChar]

/-! ### No two texts are quoted alike -/

lemma escapeChars_append_inj {s t rest rest' : List Char}
    (eq : escapeChars s ++ '"' :: rest = escapeChars t ++ '"' :: rest') : s = t ∧ rest = rest' := by
  have cons : ∀ (c : Char) (s rest : List Char), unescape? (escapeChars (c :: s) ++ '"' :: rest) =
      some (c, escapeChars s ++ '"' :: rest) := by
    intro c s rest
    rw [escapeChars, List.flatMap_cons, List.append_assoc, unescape?_escapeChar]
    rfl
  have nil : ∀ rest : List Char, unescape? (escapeChars [] ++ '"' :: rest) = none := fun _ => rfl
  have read := congrArg unescape? eq
  induction s generalizing t with
  | nil =>
    cases t with
    | nil => exact ⟨rfl, (List.cons.inj eq).2⟩
    | cons d t =>
      rw [nil, cons] at read
      cases read
  | cons c s ih =>
    cases t with
    | nil =>
      rw [nil, cons] at read
      cases read
    | cons d t =>
      rw [cons, cons, Option.some_inj, Prod.mk.injEq] at read
      obtain ⟨rfl, others⟩ := read
      obtain ⟨rfl, same⟩ := ih others (congrArg unescape? others)
      exact ⟨rfl, same⟩

theorem quoted_append_inj {s t : String} {rest rest' : List Char}
    (eq : (quoted s).toList ++ rest = (quoted t).toList ++ rest') : s = t ∧ rest = rest' := by
  rw [toList_quoted_append, toList_quoted_append, List.cons_inj_right] at eq
  obtain ⟨same, rest⟩ := escapeChars_append_inj eq
  exact ⟨String.toList_inj.1 same, rest⟩

end Injector
