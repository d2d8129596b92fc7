import Injector.Document.Json.Printer
import Injector.Document.Json.Reader
import Mathlib.Data.List.Forall2
import Mathlib.Tactic.Common

/-!
# Texts that are read as JSON

A text is read as a node if a reader finds the node wherever the text stands. Whole numbers of 64
bits and quoted texts are read as what was written, and lists and objects as what is read of their
parts, whatever blanks stand between them.
-/

namespace Injector.Json

/-! ### Numbers -/

/-- Nothing that begins so can go on with a number. -/
def EndsNumber (cs : List Char) : Prop :=
  ∀ c ∈ cs.head?, c.isDigit = false ∧ c ≠ '.' ∧ c ≠ 'e' ∧ c ≠ 'E'

/-- The digits of a number as they are read. -/
def digitsOf (n : Nat) : List Nat := (Nat.toDigits 10 n).map fun d => d.toNat - '0'.toNat

lemma takeDigits_append {ds rest : List Char} (digits : ∀ d ∈ ds, d.isDigit)
    (ends : EndsNumber rest) :
    takeDigits (ds ++ rest) = (ds.map fun d => d.toNat - '0'.toNat, rest) := by
  induction ds with
  | nil =>
    cases rest with
    | nil => rfl
    | cons c cs => simp [takeDigits, digit?, (ends c rfl).1]
  | cons d ds ih =>
    have rest := ih fun c hc => digits c (List.mem_cons_of_mem d hc)
    simp [takeDigits, digit?, digits d List.mem_cons_self, rest]

/-- Digits are all appended as long as the number that they make is within the limit. -/
lemma appendDigits_map {ds : List Char} {n : Nat}
    (small : Nat.ofDigitChars 10 ds n ≤ significandLimit) :
    appendDigits n (ds.map fun d => d.toNat - '0'.toNat) =
      (Nat.ofDigitChars 10 ds n, ds.length, 0) := by
  induction ds generalizing n with
  | nil => rfl
  | cons d ds ih =>
    have next : 10 * n + (d.toNat - '0'.toNat) = n * 10 + (d.toNat - '0'.toNat) := by omega
    rw [Nat.ofDigitChars_cons, next] at small
    have front : n * 10 + (d.toNat - '0'.toNat) ≤ significandLimit := by
      rw [Nat.ofDigitChars_eq_ofDigitChars_zero] at small
      have pos : 0 < 10 ^ ds.length := Nat.pow_pos (by decide)
      exact Nat.le_trans (Nat.le_mul_of_pos_left _ pos) (Nat.le_trans (Nat.le_add_right _ _) small)
    rw [List.map_cons, appendDigits, if_pos front, ih small, Nat.ofDigitChars_cons, next]
    rfl

lemma appendDigits_digitsOf {n : Nat} (small : n ≤ significandLimit) :
    appendDigits 0 (digitsOf n) = (n, (digitsOf n).length, 0) := by
  have whole : Nat.ofDigitChars 10 (Nat.toDigits 10 n) 0 = n := Nat.ofDigitChars_ten_toDigits
  rw [digitsOf, appendDigits_map (whole.symm ▸ small), whole, List.length_map]

/-- A number is written without a zero in front. -/
lemma head?_digitsOf {n : Nat} (pos : 0 < n) : (digitsOf n).head? ≠ some 0 := by
  induction n using Nat.strongRecOn with
  | _ n ih =>
    by_cases small : n < 10
    · have single : ∀ n < 10, 0 < n → (Nat.digitChar n).toNat - '0'.toNat ≠ 0 := by decide
      simpa [digitsOf, Nat.toDigits_of_lt_base small] using single n small pos
    · have front := ih (n / 10) (by omega) (by omega)
      rw [digitsOf, Nat.toDigits_of_base_le (by decide) (by omega), List.map_append,
        List.head?_append_of_ne_nil _ (by simp)]
      exact front

lemma unsigned?_toDigits {n : Nat} (negative : Bool) (small : n ≤ significandLimit)
    {rest : List Char} (ends : EndsNumber rest) :
    unsigned? negative (Nat.toDigits 10 n ++ rest) = some (wholeNumber negative n, rest) := by
  have taken : takeDigits (Nat.toDigits 10 n ++ rest) = (digitsOf n, rest) :=
    takeDigits_append (fun d hd => Nat.isDigit_of_mem_toDigits (by decide) (by decide) hd) ends
  have some : (digitsOf n).isEmpty = false := by simp [digitsOf]
  have front : ((digitsOf n).head? = .some 0 && (digitsOf n).length > 1) = false := by
    rcases Nat.eq_zero_or_pos n with rfl | pos
    · rfl
    · simp [head?_digitsOf pos]
  simp only [unsigned?, taken, some, front, appendDigits_digitsOf small]
  cases rest with
  | nil => simp
  | cons c cs =>
    obtain ⟨-, point, lower, upper⟩ := ends c rfl
    simp [lower, upper]

/-- What begins with a digit is a number without a sign. -/
lemma atom?_of_isDigit {d : Char} (digit : d.isDigit) (cs : List Char) :
    atom? (d :: cs) = unsigned? false (d :: cs) := by
  rw [atom?]
  all_goals
    rintro _ ⟨⟩
    cases digit

/-- A whole number of 64 bits is read as one. -/
lemma atom?_integer {n : Int} (least : -(twoTo 63 : Int) ≤ n) (greatest : n < twoTo 64)
    {rest : List Char} (ends : EndsNumber rest) :
    atom? ((toString n).toList ++ rest) = some (.integer n, rest) := by
  have limit : significandLimit = twoTo 64 - 1 := rfl
  have half : twoTo 63 < twoTo 64 := by decide
  cases n with
  | ofNat m =>
    have written : (toString (Int.ofNat m)).toList = Nat.toDigits 10 m := Nat.toList_repr
    have small : m ≤ significandLimit := by
      rw [Int.ofNat_eq_natCast] at greatest
      omega
    have read := unsigned?_toDigits false small ends
    obtain ⟨d, ds, digits⟩ := List.exists_cons_of_ne_nil (Nat.toDigits_ne_nil (n := m) (b := 10))
    have digit : d.isDigit := Nat.isDigit_of_mem_toDigits (b := 10) (n := m) (by decide) (by decide)
      (digits ▸ List.mem_cons_self)
    rw [digits, List.cons_append] at read
    rw [written, digits, List.cons_append, atom?_of_isDigit digit, read]
    rfl
  | negSucc m =>
    have written : (toString (Int.negSucc m)).toList = '-' :: Nat.toDigits 10 (m + 1) := by
      change ("-" ++ (m + 1).repr).toList = _
      rw [String.toList_append, Nat.toList_repr]
      rfl
    have small : m + 1 ≤ significandLimit := by omega
    have within : ¬(m + 1 = 0 ∨ m + 1 > twoTo 63) := by omega
    have value : wholeNumber true (m + 1) = .integer (Int.negSucc m) := if_neg within
    rw [written, List.cons_append, atom?, unsigned?_toDigits true small ends, value]

/-! ### Texts -/

/-- The last two of the four digits that stand for a control. -/
lemma hexUnit?_control {n : Nat} (small : n < 32) (cs : List Char) :
    hexUnit? ('0' :: '0' :: Nat.digitChar (n / 16) :: Nat.digitChar (n % 16) :: cs) =
      some (n, cs) := by
  have digits : ∀ n < 32, hexDigit? (Nat.digitChar (n / 16)) = some (n / 16) ∧
      hexDigit? (Nat.digitChar (n % 16)) = some (n % 16) := by decide
  have zero : hexDigit? '0' = some 0 := rfl
  obtain ⟨high, low⟩ := digits n small
  simp [hexUnit?, zero, high, low]
  omega

/-- Each character of a text is read from what it is written as. -/
lemma quotedChars_escapeChar (c : Char) (fuel : Nat) (readable : Bool) (seen cs : List Char) :
    quotedChars (fuel + 1) readable seen (escapeChar c ++ cs) =
      quotedChars fuel readable (c :: seen) cs := by
  unfold escapeChar
  -- seven characters have an escape of their own
  iterate 7
    split
    · next h => subst h; rfl
  split
  · next small =>
    have low : ¬(0xd800 ≤ c.toNat ∧ c.toNat < 0xdc00) := by omega
    have high : ¬(0xdc00 ≤ c.toNat ∧ c.toNat < 0xe000) := by omega
    simp [quotedChars, hexUnit?_control small, unitCharacter, low, high]
  · next quote backslash _ _ _ _ _ plain =>
    rw [List.singleton_append, quotedChars.eq_def]
    simp [backslash, plain]

lemma quotedChars_flatMap {s : List Char} {fuel : Nat} (enough : s.length < fuel)
    (readable : Bool) (seen rest : List Char) :
    quotedChars fuel readable seen (s.flatMap escapeChar ++ '"' :: rest) =
      some (readable, s.reverse ++ seen, rest) := by
  induction s generalizing fuel seen with
  | nil =>
    obtain ⟨fuel, rfl⟩ := Nat.exists_eq_add_of_lt enough
    rfl
  | cons c s ih =>
    cases fuel with
    | zero => cases enough
    | succ fuel =>
      rw [List.flatMap_cons, List.append_assoc, quotedChars_escapeChar,
        ih (Nat.lt_of_succ_lt_succ enough)]
      simp

lemma length_le_flatMap_escapeChar (s : List Char) : s.length ≤ (s.flatMap escapeChar).length := by
  induction s with
  | nil => exact Nat.le_refl 0
  | cons c s ih =>
    have pos : 0 < (escapeChar c).length := by
      unfold escapeChar
      repeat' split
      all_goals exact Nat.succ_pos _
    rw [List.flatMap_cons, List.length_append, List.length_cons]
    omega

lemma text?_flatMap (s : String) (rest : List Char) :
    text? (s.toList.flatMap escapeChar ++ '"' :: rest) = some (.text s, rest) := by
  have enough : s.toList.length < (s.toList.flatMap escapeChar ++ '"' :: rest).length + 1 := by
    have := length_le_flatMap_escapeChar s.toList
    rw [List.length_append]
    omega
  rw [text?, quotedChars_flatMap enough]
  simp

/-! ### Blanks -/

lemma skipSpace_append {blank : List Char} (h : skipSpace blank = []) (cs : List Char) :
    skipSpace (blank ++ cs) = skipSpace cs := by
  induction blank with
  | nil => rfl
  | cons c blank ih =>
    rw [skipSpace] at h
    split at h
    · next space => rw [List.cons_append, skipSpace, if_pos space, ih h]
    · cases h

@[simp] lemma skipSpace_skipSpace (cs : List Char) : skipSpace (skipSpace cs) = skipSpace cs := by
  induction cs with
  | nil => rfl
  | cons c cs ih =>
    by_cases space : c = ' ' ∨ c = '\n' ∨ c = '\t' ∨ c = '\r'
    · rw [skipSpace, if_pos space, ih]
    · rw [skipSpace, if_neg space, skipSpace, if_neg space]

lemma value?_skipSpace (fuel : Nat) (cs : List Char) :
    value? fuel (skipSpace cs) = value? fuel cs := by
  cases fuel with
  | zero => rfl
  | succ fuel => rw [value?, value?, skipSpace_skipSpace]

lemma items?_skipSpace (fuel : Nat) (cs : List Char) :
    items? fuel (skipSpace cs) = items? fuel cs := by
  cases fuel with
  | zero => rfl
  | succ fuel => rw [items?, items?, value?_skipSpace]

lemma members?_skipSpace (fuel : Nat) (cs : List Char) :
    members? fuel (skipSpace cs) = members? fuel cs := by
  cases fuel with
  | zero => rfl
  | succ fuel => rw [members?, members?, skipSpace_skipSpace]

lemma endsNumber_cons {c : Char} (h : c = ',' ∨ c = ']' ∨ c = '\x7d') (cs : List Char) :
    EndsNumber (c :: cs) := by
  rintro _ ⟨⟩
  rcases h with rfl | rfl | rfl <;> decide

lemma endsNumber_append {blank cs : List Char} (h : skipSpace blank = []) (ends : EndsNumber cs) :
    EndsNumber (blank ++ cs) := by
  cases blank with
  | nil => exact ends
  | cons c blank =>
    rw [skipSpace] at h
    split at h
    · next space =>
      rintro _ ⟨⟩
      rcases space with rfl | rfl | rfl | rfl <;> decide
    · cases h

/-! ### Readable texts -/

/-- A text is read as a node, whatever follows, as long as it does not go on with a number. -/
def Reads (t : List Char) (n : Node) : Prop :=
  ∀ fuel rest, 2 * (t ++ rest).length ≤ fuel → EndsNumber rest →
    value? fuel (t ++ rest) = some (n, rest)

/-- A text is read as a member: a key, and what is read as its value. -/
inductive ReadsMember : List Char → Node × Node → Prop
  | intro {blank : List Char} (h : skipSpace blank = []) (key : String) {value : List Char}
      {n : Node} (reads : Reads value n) :
      ReadsMember (blank ++ ((textForm key).toList ++ ':' :: value)) (.ofText key, n)

lemma Reads.of_blank {blank t : List Char} {n : Node} (reads : Reads t n)
    (h : skipSpace blank = []) : Reads (blank ++ t) n := by
  intro fuel rest enough ends
  rw [List.append_assoc] at enough ⊢
  rw [← value?_skipSpace, skipSpace_append h, value?_skipSpace]
  refine reads fuel rest ?_ ends
  rw [List.length_append] at enough
  omega

lemma ReadsMember.of_blank {blank t : List Char} {m : Node × Node} (reads : ReadsMember t m)
    (h : skipSpace blank = []) : ReadsMember (blank ++ t) m := by
  obtain ⟨h', key, reads⟩ := reads
  rw [← List.append_assoc]
  exact .intro ((skipSpace_append h _).trans h') key reads

/-! ### Atoms and texts -/

/-- What is no list, no object and no text is read as an atom. -/
lemma value?_of_atom? {fuel : Nat} {cs rest : List Char} {s : Scalar}
    (h : atom? cs = some (s, rest)) : value? (fuel + 1) cs = some (s.node, rest) := by
  have first : skipSpace cs = cs := by
    cases cs with
    | nil => rfl
    | cons c cs =>
      refine if_neg ?_
      rintro (rfl | rfl | rfl | rfl) <;> cases h
  rw [value?, first]
  split
  · cases h
  · cases h
  · cases h
  · simp [h]

lemma reads_of_atom? {t : List Char} {s : Scalar}
    (h : ∀ rest, EndsNumber rest → atom? (t ++ rest) = some (s, rest)) : Reads t s.node := by
  intro fuel rest enough ends
  cases t with
  | nil => cases h [] nofun
  | cons c t =>
    cases fuel with
    | zero => simp at enough
    | succ fuel => exact value?_of_atom? (h rest ends)

lemma reads_text (s : String) : Reads (textForm s).toList (.ofText s) := by
  intro fuel rest enough _
  have written : (textForm s).toList ++ rest =
      '"' :: (s.toList.flatMap escapeChar ++ '"' :: rest) := by
    simp [textForm]
  have quote : ∀ cs, skipSpace ('"' :: cs) = '"' :: cs := fun _ => rfl
  rw [written] at enough ⊢
  cases fuel with
  | zero => simp at enough
  | succ fuel =>
    simp [value?, quote, text?_flatMap]
    rfl

/-! ### Lists and objects -/

/-- A member is read, and after it another one or the end. -/
lemma members?_of_member {t rest : List Char} {m : Node × Node} {fuel : Nat}
    (read : ReadsMember t m) (enough : 2 * (t ++ rest).length ≤ fuel) (ends : EndsNumber rest) :
    (∀ rest', skipSpace rest = ',' :: rest' →
      members? (fuel + 1) (t ++ rest) = (members? fuel rest').map fun p => (m :: p.1, p.2)) ∧
    ∀ rest', skipSpace rest = '\x7d' :: rest' →
      members? (fuel + 1) (t ++ rest) = some ([m], rest') := by
  obtain @⟨blank, h, key, value, n, read⟩ := read
  have written : blank ++ ((textForm key).toList ++ ':' :: value) ++ rest =
      blank ++ '"' :: (key.toList.flatMap escapeChar ++ '"' :: ':' :: (value ++ rest)) := by
    simp [textForm]
  have quote : ∀ cs, skipSpace ('"' :: cs) = '"' :: cs := fun _ => rfl
  have colon : ∀ cs, skipSpace (':' :: cs) = ':' :: cs := fun _ => rfl
  have shorter : 2 * (value ++ rest).length ≤ fuel := by
    simp only [List.length_append, List.length_cons] at enough ⊢
    omega
  constructor
  all_goals
    intro rest' next
    rw [written, members?, skipSpace_append h, quote]
    simp only [text?_flatMap, colon, Option.bind_eq_bind, Option.bind_some,
      read fuel rest shorter ends, next]
  · exact Option.map_eq_bind.symm
  · rfl

lemma value?_of_closing {fuel : Nat} {cs rest : List Char} (h : skipSpace cs = ']' :: rest) :
    value? (fuel + 1) ('[' :: cs) = some (.list true [], rest) := by
  have opening : skipSpace ('[' :: cs) = '[' :: cs := rfl
  simp [value?, opening, h]

/-- Where items are read, no closing bracket comes before them. -/
lemma value?_of_items {fuel : Nat} {cs rest : List Char} {ns : List Node}
    (h : items? fuel cs = some (ns, rest)) :
    value? (fuel + 1) ('[' :: cs) = some (.list true ns, rest) := by
  have opening : skipSpace ('[' :: cs) = '[' :: cs := rfl
  have more : ∀ rest', skipSpace cs ≠ ']' :: rest' := by
    intro rest' closing
    rw [← items?_skipSpace, closing] at h
    rcases fuel with _ | _ | fuel <;> cases h
  simp [value?, opening, items?_skipSpace, h]

lemma value?_of_closingBrace {fuel : Nat} {cs rest : List Char}
    (h : skipSpace cs = '\x7d' :: rest) :
    value? (fuel + 1) ('\x7b' :: cs) = some (.object [], rest) := by
  have opening : skipSpace ('\x7b' :: cs) = '\x7b' :: cs := rfl
  simp [value?, opening, h]

/-- Where members are read, no closing brace comes before them. -/
lemma value?_of_members {fuel : Nat} {cs rest : List Char} {ms : List (Node × Node)}
    (h : members? fuel cs = some (ms, rest)) :
    value? (fuel + 1) ('\x7b' :: cs) = some (.object ms, rest) := by
  have opening : skipSpace ('\x7b' :: cs) = '\x7b' :: cs := rfl
  have more : ∀ rest', skipSpace cs ≠ '\x7d' :: rest' := by
    intro rest' closing
    rw [← members?_skipSpace, closing] at h
    rcases fuel with _ | fuel <;> cases h
  simp [value?, opening, members?_skipSpace, h]

section Groups

variable {gap margin : List Char} (hgap : skipSpace gap = []) (hmargin : skipSpace margin = [])

include hgap hmargin

/-- Items between commas are read one by one. -/
lemma items?_of_reads {ts : List (List Char)} {ns : List Node} (reads : List.Forall₂ Reads ts ns)
    (ne : ts ≠ []) (rest : List Char) {fuel : Nat}
    (enough : 2 * ((',' :: gap).intercalate ts ++ (margin ++ ']' :: rest)).length < fuel) :
    items? fuel ((',' :: gap).intercalate ts ++ (margin ++ ']' :: rest)) = some (ns, rest) := by
  induction reads generalizing fuel with
  | nil => exact absurd rfl ne
  | @cons t n ts ns read reads ih =>
    cases fuel with
    | zero => cases enough
    | succ fuel =>
      cases reads with
      | nil =>
        rw [List.intercalate_singleton] at enough ⊢
        have ends : EndsNumber (margin ++ ']' :: rest) :=
          endsNumber_append hmargin (endsNumber_cons (by simp) _)
        have closing : skipSpace (margin ++ ']' :: rest) = ']' :: rest := skipSpace_append hmargin _
        rw [items?, read fuel _ (by omega) ends]
        simp [closing]
      | cons =>
        rw [List.intercalate_cons_cons, List.append_assoc, List.append_assoc, List.cons_append]
          at enough ⊢
        rw [items?, read fuel _ (by omega) (endsNumber_cons (by simp) _)]
        have comma : ∀ cs, skipSpace (',' :: cs) = ',' :: cs := fun _ => rfl
        simp only [List.length_append, List.length_cons] at enough
        have later := @ih (List.cons_ne_nil _ _) fuel (by
          simp only [List.length_append, List.length_cons]
          omega)
        rw [← items?_skipSpace, ← skipSpace_append hgap, items?_skipSpace] at later
        simp [comma, later]

/-- Members between commas are read one by one. -/
lemma members?_of_reads {ts : List (List Char)} {ms : List (Node × Node)}
    (reads : List.Forall₂ ReadsMember ts ms) (ne : ts ≠ []) (rest : List Char) {fuel : Nat}
    (enough : 2 * ((',' :: gap).intercalate ts ++ (margin ++ '\x7d' :: rest)).length < fuel) :
    members? fuel ((',' :: gap).intercalate ts ++ (margin ++ '\x7d' :: rest)) =
      some (ms, rest) := by
  induction reads generalizing fuel with
  | nil => exact absurd rfl ne
  | @cons t m ts ms read reads ih =>
    cases fuel with
    | zero => cases enough
    | succ fuel =>
      cases reads with
      | nil =>
        rw [List.intercalate_singleton] at enough ⊢
        have ends : EndsNumber (margin ++ '\x7d' :: rest) :=
          endsNumber_append hmargin (endsNumber_cons (by simp) _)
        have closing : skipSpace (margin ++ '\x7d' :: rest) = '\x7d' :: rest :=
          skipSpace_append hmargin _
        exact (members?_of_member read (by omega) ends).2 rest closing
      | cons =>
        rw [List.intercalate_cons_cons, List.append_assoc, List.append_assoc, List.cons_append]
          at enough ⊢
        rw [(members?_of_member read (by omega) (endsNumber_cons (.inl rfl) _)).1 _ rfl]
        simp only [List.length_append, List.length_cons] at enough
        have later := @ih (List.cons_ne_nil _ _) fuel (by
          simp only [List.length_append, List.length_cons]
          omega)
        rw [← members?_skipSpace, ← skipSpace_append hgap, members?_skipSpace] at later
        rw [later, Option.map_some]

/-- A list is read from its items between brackets. -/
lemma reads_list {blank : List Char} {ts : List (List Char)} {ns : List Node}
    (reads : List.Forall₂ Reads ts ns) (hblank : skipSpace blank = []) :
    Reads ('[' :: (blank ++ ((',' :: gap).intercalate ts ++ (margin ++ [']']))))
      (.list true ns) := by
  intro fuel rest enough _
  cases fuel with
  | zero => simp at enough
  | succ fuel =>
    simp only [List.cons_append, List.append_assoc, List.nil_append] at enough ⊢
    cases reads with
    | nil =>
      apply value?_of_closing
      rw [List.intercalate_nil, List.nil_append, skipSpace_append hblank, skipSpace_append hmargin]
      rfl
    | cons read reads =>
      apply value?_of_items
      rw [← items?_skipSpace, skipSpace_append hblank, items?_skipSpace]
      apply items?_of_reads hgap hmargin (.cons read reads) (List.cons_ne_nil _ _)
      simp only [List.length_append, List.length_cons] at enough ⊢
      omega

/-- An object is read from its members between braces. -/
lemma reads_object {blank : List Char} {ts : List (List Char)} {ms : List (Node × Node)}
    (reads : List.Forall₂ ReadsMember ts ms) (hblank : skipSpace blank = []) :
    Reads ('\x7b' :: (blank ++ ((',' :: gap).intercalate ts ++ (margin ++ ['\x7d']))))
      (.object ms) := by
  intro fuel rest enough _
  cases fuel with
  | zero => simp at enough
  | succ fuel =>
    simp only [List.cons_append, List.append_assoc, List.nil_append] at enough ⊢
    cases reads with
    | nil =>
      apply value?_of_closingBrace
      rw [List.intercalate_nil, List.nil_append, skipSpace_append hblank, skipSpace_append hmargin]
      rfl
    | cons read reads =>
      apply value?_of_members
      rw [← members?_skipSpace, skipSpace_append hblank, members?_skipSpace]
      apply members?_of_reads hgap hmargin (.cons read reads) (List.cons_ne_nil _ _)
      simp only [List.length_append, List.length_cons] at enough ⊢
      omega

end Groups

end Injector.Json
