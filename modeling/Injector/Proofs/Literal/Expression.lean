import Injector.Proofs.Config.RoundTrip
import Injector.Proofs.Text.Quoted

/-!
# Literals can be told from their expressions

The first character of an expression tells the kind of the literal, and whatever follows it, the
expression of a literal without floating-point numbers ends where it ends. So no two such literals
have the same expression, and a text within quotes cannot be taken for anything else.
-/

namespace Injector.Literal

/-! ### Kinds -/

/-- The kinds of literals whose expressions are told apart. -/
inductive Kind
  | null | bool | integer | text | list
deriving DecidableEq

/-- The kind of a literal, if it is no floating-point number. -/
def kind? : Literal → Option Kind
  | .null => some .null
  | .bool _ => some .bool
  | .integer _ => some .integer
  | .float _ => none
  | .text _ => some .text
  | .list _ => some .list

/-- The kind of a literal whose expression begins with a character. -/
def Kind.ofChar? (c : Char) : Option Kind :=
  if c.isDigit ∨ c = '-' then some .integer
  else if c = 'N' then some .null
  else if c = 't' ∨ c = 'f' then some .bool
  else if c = '"' then some .text
  else if c = 'v' then some .list
  else none

lemma isSome_kind? {a : Literal} (free : a.isFloatFree) : a.kind?.isSome := by
  cases a <;> first | rfl | cases free

/-! ### Whole numbers -/

/-- No digit comes first. -/
def EndsDigits (cs : List Char) : Prop := ∀ c ∈ cs.head?, c.isDigit = false

lemma endsDigits_nil : EndsDigits [] := by
  rintro c ⟨⟩

lemma toList_expression_integer (n : Int64) : (integer n).expression.toList =
    if 0 ≤ n.toInt then Nat.toDigits 10 n.toInt.toNat
    else '-' :: Nat.toDigits 10 (-n.toInt).toNat := by
  rw [expression, Int.toString_eq_repr, Int.repr_eq_if]
  split <;> simp [Nat.toList_repr]

lemma takeWhile_toDigits_append (n : Nat) {rest : List Char} (ends : EndsDigits rest) :
    (Nat.toDigits 10 n ++ rest).takeWhile Char.isDigit = Nat.toDigits 10 n := by
  have digits : ∀ c ∈ Nat.toDigits 10 n, c.isDigit := fun c =>
    Nat.isDigit_of_mem_toDigits (by decide) (by decide)
  have stop : rest.takeWhile Char.isDigit = [] := by
    cases rest with
    | nil => rfl
    | cons c cs => simp [ends c rfl]
  rw [List.takeWhile_append_of_pos digits, stop, List.append_nil]

/-- Digits end with the first other character. -/
lemma toDigits_append_inj {m n : Nat} {rest rest' : List Char} (ends : EndsDigits rest)
    (ends' : EndsDigits rest') (eq : Nat.toDigits 10 m ++ rest = Nat.toDigits 10 n ++ rest') :
    m = n ∧ rest = rest' := by
  have digits := congrArg (List.takeWhile Char.isDigit) eq
  rw [takeWhile_toDigits_append m ends, takeWhile_toDigits_append n ends'] at digits
  have same := congrArg (Nat.ofDigitChars 10 · 0) digits
  rw [Nat.ofDigitChars_ten_toDigits, Nat.ofDigitChars_ten_toDigits] at same
  rw [digits, List.append_cancel_left_eq] at eq
  exact ⟨same, eq⟩

/-- No digits begin with a sign. -/
lemma toDigits_append_ne_cons (n : Nat) {rest cs : List Char} (ends : EndsDigits rest) :
    Nat.toDigits 10 n ++ rest ≠ '-' :: cs := by
  intro eq
  have digits := takeWhile_toDigits_append n ends
  rw [eq] at digits
  exact Nat.toDigits_ne_nil digits.symm

lemma integer_append_inj {m n : Int64} {rest rest' : List Char} (ends : EndsDigits rest)
    (ends' : EndsDigits rest')
    (eq : (integer m).expression.toList ++ rest = (integer n).expression.toList ++ rest') :
    m = n ∧ rest = rest' := by
  rw [toList_expression_integer, toList_expression_integer] at eq
  rw [← Int64.toInt_inj]
  split_ifs at eq with hm hn hn
  · obtain ⟨same, rest⟩ := toDigits_append_inj ends ends' eq
    exact ⟨by omega, rest⟩
  · exact absurd eq (toDigits_append_ne_cons _ ends)
  · exact absurd eq.symm (toDigits_append_ne_cons _ ends')
  · obtain ⟨same, rest⟩ := toDigits_append_inj ends ends' (List.cons.inj eq).2
    exact ⟨by omega, rest⟩

/-! ### Lists -/

/-- The items of a list as they are written, with the closing bracket. -/
def itemsChars : List Literal → List Char
  | [] => [']']
  | [a] => a.expression.toList ++ [']']
  | a :: b :: as => a.expression.toList ++ ',' :: ' ' :: itemsChars (b :: as)

/-- What is written behind the first item of a list, where these are the others. -/
def behindItem : List Literal → List Char
  | [] => [']']
  | a :: as => ',' :: ' ' :: itemsChars (a :: as)

lemma itemsChars_cons (a : Literal) (as : List Literal) :
    itemsChars (a :: as) = a.expression.toList ++ behindItem as := by
  cases as <;> rfl

lemma endsDigits_behindItem (as : List Literal) (rest : List Char) :
    EndsDigits (behindItem as ++ rest) := by
  cases as <;> rintro c ⟨⟩ <;> rfl

lemma toList_expression_list (items : List Literal) :
    (list items).expression.toList = "vec![".toList ++ itemsChars items := by
  have joined : ", ".toList.intercalate ((expressions items).map String.toList) ++ [']'] =
      itemsChars items := by
    induction items with
    | nil => rfl
    | cons a as ih =>
      cases as with
      | nil => simp [expressions, itemsChars]
      | cons b as =>
        rw [itemsChars, ← ih, expressions, expressions, List.map_cons, List.map_cons,
          List.intercalate_cons_cons]
        simp
  rw [expression, String.toList_append, String.toList_append, String.toList_intercalate,
    List.append_assoc]
  exact congrArg ("vec![".toList ++ ·) joined

/-! ### Expressions and what follows them -/

/-- The first character of an expression tells the kind of the literal. -/
lemma ofChar?_expression {a : Literal} (free : a.isFloatFree) (rest : List Char) :
    (a.expression.toList ++ rest).head?.bind Kind.ofChar? = a.kind? := by
  cases a with
  | null => rfl
  | bool b => cases b <;> rfl
  | integer n =>
    rw [toList_expression_integer]
    split
    · obtain ⟨d, ds, digits⟩ := List.exists_cons_of_ne_nil
        (Nat.toDigits_ne_nil (n := n.toInt.toNat) (b := 10))
      have digit : d.isDigit := Nat.isDigit_of_mem_toDigits (by decide) (by decide)
        (digits ▸ List.mem_cons_self)
      rw [digits]
      exact if_pos (.inl digit)
    · rfl
  | float => cases free
  | text s =>
    rw [expression, toList_quoted_append]
    rfl
  | list items =>
    rw [toList_expression_list]
    rfl

/-- No expression begins with a bracket that closes a list. -/
lemma itemsChars_cons_append_ne {a : Literal} (free : a.isFloatFree) (as : List Literal)
    (rest cs : List Char) : itemsChars (a :: as) ++ rest ≠ ']' :: cs := by
  intro eq
  rw [itemsChars_cons, List.append_assoc] at eq
  have kind := ofChar?_expression free (behindItem as ++ rest)
  rw [eq] at kind
  have some := isSome_kind? free
  rw [← kind] at some
  cases some

mutual

/-- The expression of a literal ends where it ends, whatever follows that does not go on with a
number. -/
lemma expression_append_inj : (a : Literal) → a.isFloatFree → {b : Literal} → b.isFloatFree →
    {rest rest' : List Char} → EndsDigits rest → EndsDigits rest' →
    a.expression.toList ++ rest = b.expression.toList ++ rest' → a = b ∧ rest = rest' := by
  intro a free b free' rest rest' ends ends' eq
  have kind : a.kind? = b.kind? := by
    rw [← ofChar?_expression free rest, ← ofChar?_expression free' rest', eq]
  -- the kinds rule out all other pairs, so no characters need to be compared for them
  revert eq
  match a, b, kind with
  | .null, .null, _ =>
    intro eq
    exact ⟨rfl, List.append_cancel_left eq⟩
  | .bool b, .bool b', _ =>
    intro eq
    cases b <;> cases b' <;> cases eq <;> exact ⟨rfl, rfl⟩
  | .integer m, .integer n, _ =>
    intro eq
    obtain ⟨same, rest⟩ := integer_append_inj ends ends' eq
    exact ⟨congrArg integer same, rest⟩
  | .text s, .text t, _ =>
    intro eq
    obtain ⟨same, rest⟩ := quoted_append_inj eq
    exact ⟨congrArg text same, rest⟩
  | .list items, .list items', _ =>
    intro eq
    rw [toList_expression_list, toList_expression_list, List.append_assoc,
      List.append_assoc] at eq
    obtain ⟨same, rest⟩ := itemsChars_append_inj items free free' (List.append_cancel_left eq)
    exact ⟨congrArg list same, rest⟩

/-- The items of a list end with its closing bracket. -/
lemma itemsChars_append_inj : (as : List Literal) → areFloatFree as → {bs : List Literal} →
    areFloatFree bs → {rest rest' : List Char} →
    itemsChars as ++ rest = itemsChars bs ++ rest' → as = bs ∧ rest = rest' := by
  intro as free bs free' rest rest' eq
  match as, bs with
  | [], [] => exact ⟨rfl, (List.cons.inj eq).2⟩
  | [], b :: bs =>
    exact absurd eq.symm (itemsChars_cons_append_ne (Bool.and_eq_true_iff.1 free').1 bs _ _)
  | a :: as, [] =>
    exact absurd eq (itemsChars_cons_append_ne (Bool.and_eq_true_iff.1 free).1 as _ _)
  | a :: as, b :: bs =>
    obtain ⟨first, others⟩ := Bool.and_eq_true_iff.1 free
    obtain ⟨first', others'⟩ := Bool.and_eq_true_iff.1 free'
    rw [itemsChars_cons, itemsChars_cons, List.append_assoc, List.append_assoc] at eq
    obtain ⟨rfl, behind⟩ := expression_append_inj a first first'
      (endsDigits_behindItem as rest) (endsDigits_behindItem bs rest') eq
    match as, bs with
    | [], [] => exact ⟨rfl, (List.cons.inj behind).2⟩
    | [], b :: bs => cases behind
    | a :: as, [] => cases behind
    | a' :: as, b :: bs =>
      have later := (List.cons.inj (List.cons.inj behind).2).2
      obtain ⟨same, rest⟩ := itemsChars_append_inj (a' :: as) others others' later
      exact ⟨congrArg (a :: ·) same, rest⟩

end

/-- What begins with a quoted text is the expression of that text and of nothing else. -/
lemma eq_text_of_expression_append {b : Literal} (free : b.isFloatFree) {s : String}
    {rest rest' : List Char}
    (eq : (text s).expression.toList ++ rest = b.expression.toList ++ rest') :
    b = text s ∧ rest' = rest := by
  have kind : b.kind? = some .text := by
    rw [← ofChar?_expression free rest', ← eq]
    exact ofChar?_expression (a := text s) rfl rest
  revert eq
  match b, kind with
  | .text t, _ =>
    intro eq
    obtain ⟨rfl, rfl⟩ := quoted_append_inj eq
    exact ⟨rfl, rfl⟩

/-- Literals without floating-point numbers that have the same expression are the same. The
expression of a text ends with its own last quote, whatever follows; the text is the only literal
that it can be read as, and as the items of a list it is one item. -/
theorem expression_unambiguous :
    (∀ a b : Literal, a.isFloatFree → b.isFloatFree → a.expression = b.expression → a = b) ∧
      (∀ (s : String) (rest : List Char),
        afterQuoted? ((text s).expression.toList ++ rest) = some rest) ∧
      (∀ (s : String) (b : Literal) (rest rest' : List Char), b.isFloatFree →
        (text s).expression.toList ++ rest = b.expression.toList ++ rest' →
          b = text s ∧ rest' = rest) ∧
      ∀ (s : String) (items : List Literal), areFloatFree items →
        ", ".intercalate (expressions items) = (text s).expression → items = [text s] := by
  have injective : ∀ a b : Literal, a.isFloatFree → b.isFloatFree →
      a.expression = b.expression → a = b := by
    intro a b free free' eq
    have chars : a.expression.toList ++ [] = b.expression.toList ++ [] := by rw [eq]
    exact (expression_append_inj a free free' endsDigits_nil endsDigits_nil chars).1
  refine ⟨injective, ?_, ?_, ?_⟩
  · intro s rest
    rw [expression]
    exact afterQuoted?_quoted s rest
  · intro s b rest rest' free
    exact eq_text_of_expression_append free
  · intro s items free eq
    have lists : (list items).expression = (list [text s]).expression := by
      rw [expression, eq, expression]
      rfl
    exact Literal.list.inj (injective _ _ free rfl lists)

/-- A text with quotes and a comma in it is one item of a list, not two. -/
theorem expression_unambiguous_quotes :
    areFloatFree [text ("a\", " ++ "\"b")] ∧
      ", ".intercalate (expressions [text ("a\", " ++ "\"b")]) = (text "a\", \"b").expression ∧
      [text ("a\", " ++ "\"b")] = [text "a\", \"b"] ∧
      (list [text "a\", \"b"]).expression ≠ (list [text "a", text "b"]).expression := by
  obtain ⟨injective, -, -, items⟩ := expression_unambiguous
  exact ⟨rfl, by decide +kernel, items _ _ rfl (by decide +kernel), fun eq =>
    absurd (injective _ _ rfl rfl eq) (by decide)⟩

end Injector.Literal
