import Injector.Proofs.Document.Json.Reader

/-!
# Reading written JSON

The text of a document, in either form, is read as the node of the document, as long as there are no
floating-point numbers in it, its whole numbers are of 64 bits, and it is not nested too deep.
-/

namespace Injector.Json

/-! ### Documents -/

mutual

/-- Whether a document has only numbers that are read as they are written: whole ones of 64 bits. -/
def isExact : Document → Bool
  | .null | .bool _ | .text _ => true
  | .integer n => -(twoTo 63 : Int) ≤ n ∧ n < twoTo 64
  | .float _ => false
  | .list items => areExact items
  | .object members => membersAreExact members
  | .tagged _ value => isExact value

def areExact : List Document → Bool
  | [] => true
  | d :: ds => isExact d && areExact ds

def membersAreExact : List (String × Document) → Bool
  | [] => true
  | (_, d) :: ms => isExact d && membersAreExact ms

end

@[simp] lemma areExact_eq_all (ds : List Document) : areExact ds = ds.all isExact := by
  induction ds with
  | nil => rfl
  | cons d ds ih => rw [areExact, ih, List.all_cons]

@[simp] lemma membersAreExact_eq_all (ms : List (String × Document)) :
    membersAreExact ms = ms.all fun m => isExact m.2 := by
  induction ms with
  | nil => rfl
  | cons m ms ih => rw [membersAreExact, ih, List.all_cons]

mutual

/-- How deep lists and objects are nested. -/
def depth : Document → Nat
  | .null | .bool _ | .text _ | .integer _ | .float _ => 0
  | .list items => depthOfItems items + 1
  | .object members => depthOfMembers members + 1
  | .tagged _ value => depth value + 1

def depthOfItems : List Document → Nat
  | [] => 0
  | d :: ds => max (depth d) (depthOfItems ds)

def depthOfMembers : List (String × Document) → Nat
  | [] => 0
  | (_, d) :: ms => max (depth d) (depthOfMembers ms)

end

mutual

/-- A document that is not nested too deep is readable as a whole. -/
lemma limited_toNode : (d : Document) → {room : Nat} → depth d ≤ room →
    d.toNode.limited room = d.toNode
  | .null, _, _ | .bool _, _, _ | .text _, _, _ | .integer _, _, _ => rfl
  | .float x, _, _ => by
    rw [Document.toNode]
    cases x.isFinite <;> rfl
  | .list items, room + 1, h => by
    rw [Document.toNode, Node.limited, if_neg (Nat.succ_ne_zero room),
      Nat.add_sub_cancel, limitedItems_toNodes items (Nat.le_of_succ_le_succ h)]
  | .object members, room + 1, h => by
    rw [Document.toNode, Node.limited, if_neg (Nat.succ_ne_zero room),
      Nat.add_sub_cancel, limitedMembers_toMembers members (Nat.le_of_succ_le_succ h)]
  | .tagged tag value, room + 1, h => by
    rw [Document.toNode, Node.limited, if_neg (Nat.succ_ne_zero room), limitedMembers,
      Nat.add_sub_cancel, limited_toNode value (Nat.le_of_succ_le_succ h)]
    rfl

lemma limitedItems_toNodes : (ds : List Document) → {room : Nat} → depthOfItems ds ≤ room →
    limitedItems room (toNodes ds) = toNodes ds
  | [], _, _ => rfl
  | d :: ds, _, h => by
    rw [toNodes, limitedItems, limited_toNode d (Nat.le_trans (Nat.le_max_left _ _) h),
      limitedItems_toNodes ds (Nat.le_trans (Nat.le_max_right _ _) h)]

lemma limitedMembers_toMembers : (ms : List (String × Document)) → {room : Nat} →
    depthOfMembers ms ≤ room → limitedMembers room (toMembers ms) = toMembers ms
  | [], _, _ => rfl
  | (k, d) :: ms, _, h => by
    rw [toMembers, limitedMembers, limited_toNode d (Nat.le_trans (Nat.le_max_left _ _) h),
      limitedMembers_toMembers ms (Nat.le_trans (Nat.le_max_right _ _) h)]
    rfl

end

/-! ### The compact form -/

lemma reads_compactList {items : List String} {ns : List Node}
    (reads : List.Forall₂ Reads (items.map String.toList) ns) :
    Reads (compactGroup "[" "]" items).toList (.list true ns) := by
  have written : (compactGroup "[" "]" items).toList =
      '[' :: ([] ++ ([','].intercalate (items.map String.toList) ++ ([] ++ [']']))) := by
    simp [compactGroup, String.toList_intercalate]
  rw [written]
  exact reads_list rfl rfl reads rfl

lemma reads_compactObject {items : List String} {ms : List (Node × Node)}
    (reads : List.Forall₂ ReadsMember (items.map String.toList) ms) :
    Reads (compactGroup "\x7b" "\x7d" items).toList (.object ms) := by
  have written : (compactGroup "\x7b" "\x7d" items).toList =
      '\x7b' :: ([] ++ ([','].intercalate (items.map String.toList) ++ ([] ++ ['\x7d']))) := by
    simp [compactGroup, String.toList_intercalate]
  rw [written]
  exact reads_object rfl rfl reads rfl

lemma readsMember_compact (key : String) {value : String} {n : Node}
    (reads : Reads value.toList n) :
    ReadsMember (textForm key ++ ":" ++ value).toList (.ofText key, n) := by
  have none : skipSpace [] = [] := rfl
  simpa using ReadsMember.intro none key reads

mutual

/-- The compact form of a document is read as its node. -/
lemma reads_compact : (d : Document) → isExact d → Reads (compact d).toList d.toNode
  | .null, _ | .bool true, _ | .bool false, _ => reads_of_atom? fun _ _ => rfl
  | .integer n, exact => by
    obtain ⟨least, greatest⟩ : -(twoTo 63 : Int) ≤ n ∧ n < twoTo 64 := by
      simpa [isExact] using exact
    exact reads_of_atom? fun _ ends => atom?_integer least greatest ends
  | .float _, exact => nomatch exact
  | .text s, _ => reads_text s
  | .list items, exact => by
    rw [compact, Document.toNode]
    exact reads_compactList (reads_compactItems items exact)
  | .object members, exact => by
    rw [compact, Document.toNode]
    exact reads_compactObject (reads_compactMembers members exact)
  | .tagged tag value, exact => by
    rw [compact, Document.toNode]
    exact reads_compactObject (.cons (readsMember_compact tag (reads_compact value exact)) .nil)

lemma reads_compactItems : (ds : List Document) → areExact ds →
    List.Forall₂ Reads ((compactItems ds).map String.toList) (toNodes ds)
  | [], _ => .nil
  | d :: ds, exact => by
    obtain ⟨first, rest⟩ := Bool.and_eq_true_iff.1 exact
    exact .cons (reads_compact d first) (reads_compactItems ds rest)

lemma reads_compactMembers : (ms : List (String × Document)) → membersAreExact ms →
    List.Forall₂ ReadsMember ((compactMembers ms).map String.toList) (toMembers ms)
  | [], _ => .nil
  | (k, d) :: ms, exact => by
    obtain ⟨first, rest⟩ := Bool.and_eq_true_iff.1 exact
    exact .cons (readsMember_compact k (reads_compact d first)) (reads_compactMembers ms rest)

end

/-! ### The spread form -/

lemma skipSpace_margin (depth : Nat) : skipSpace (margin depth).toList = [] := by
  induction depth with
  | zero => rfl
  | succ depth ih =>
    have two : (margin (depth + 1)).toList = [' ', ' '] ++ (margin depth).toList := by
      simp [margin, List.replicate_succ]
    rw [two, skipSpace_append rfl, ih]

lemma spreadGroup_nil (opening closing : String) (depth : Nat) :
    spreadGroup opening closing depth [] = compactGroup opening closing [] := by
  simp [spreadGroup, compactGroup]

/-- Items on lines of their own. -/
lemma toList_spreadGroup {items : List String} (ne : items ≠ []) {opening closing : String}
    {o c : Char} (ho : opening.toList = [o]) (hc : closing.toList = [c]) (depth : Nat) :
    (spreadGroup opening closing depth items).toList =
      o :: (['\n'] ++ ([',', '\n'].intercalate
        ((items.map (margin (depth + 1) ++ ·)).map String.toList) ++
          (('\n' :: (margin depth).toList) ++ [c]))) := by
  have some : items.isEmpty = false := by simpa using ne
  simp [spreadGroup, some, ho, hc, String.toList_intercalate]

/-- What is read is also read after the margin of its line. -/
lemma forall₂_margin {α : Type} {R : List Char → α → Prop}
    (blank : ∀ {b t a}, R t a → skipSpace b = [] → R (b ++ t) a) (depth : Nat)
    {items : List String} {l : List α} (reads : List.Forall₂ R (items.map String.toList) l) :
    List.Forall₂ R ((items.map (margin depth ++ ·)).map String.toList) l := by
  rw [List.forall₂_map_left_iff] at reads
  rw [List.map_map, List.forall₂_map_left_iff]
  refine reads.imp fun s a read => ?_
  simpa using blank read (skipSpace_margin depth)

lemma reads_spreadList {items : List String} {ns : List Node} (depth : Nat)
    (reads : List.Forall₂ Reads (items.map String.toList) ns) :
    Reads (spreadGroup "[" "]" depth items).toList (.list true ns) := by
  by_cases empty : items = []
  · subst empty
    rw [spreadGroup_nil]
    exact reads_compactList reads
  · rw [toList_spreadGroup empty rfl rfl]
    have newline : skipSpace ['\n'] = [] := rfl
    have below : skipSpace ('\n' :: (margin depth).toList) = [] := skipSpace_margin depth
    have indented := forall₂_margin Reads.of_blank (depth + 1) reads
    exact reads_list newline below indented newline

lemma reads_spreadObject {items : List String} {ms : List (Node × Node)} (depth : Nat)
    (reads : List.Forall₂ ReadsMember (items.map String.toList) ms) :
    Reads (spreadGroup "\x7b" "\x7d" depth items).toList (.object ms) := by
  by_cases empty : items = []
  · subst empty
    rw [spreadGroup_nil]
    exact reads_compactObject reads
  · rw [toList_spreadGroup empty rfl rfl]
    have newline : skipSpace ['\n'] = [] := rfl
    have below : skipSpace ('\n' :: (margin depth).toList) = [] := skipSpace_margin depth
    have indented := forall₂_margin ReadsMember.of_blank (depth + 1) reads
    exact reads_object newline below indented newline

lemma readsMember_spread (key : String) {value : String} {n : Node}
    (reads : Reads value.toList n) :
    ReadsMember (textForm key ++ ": " ++ value).toList (.ofText key, n) := by
  have spaced : Reads ([' '] ++ value.toList) n := reads.of_blank rfl
  have none : skipSpace [] = [] := rfl
  simpa using ReadsMember.intro none key spaced

mutual

/-- The spread form of a document is read as its node. -/
lemma reads_spreadAt : (d : Document) → isExact d → (depth : Nat) →
    Reads (spreadAt depth d).toList d.toNode
  | .null, exact, _ => reads_compact .null exact
  | .bool b, exact, _ => reads_compact (.bool b) exact
  | .integer n, exact, _ => reads_compact (.integer n) exact
  | .float _, exact, _ => nomatch exact
  | .text s, _, _ => reads_text s
  | .list items, exact, depth => by
    rw [spreadAt, Document.toNode]
    exact reads_spreadList depth (reads_spreadItems items exact (depth + 1))
  | .object members, exact, depth => by
    rw [spreadAt, Document.toNode]
    exact reads_spreadObject depth (reads_spreadMembers members exact (depth + 1))
  | .tagged tag value, exact, depth => by
    rw [spreadAt, Document.toNode]
    exact reads_spreadObject depth
      (.cons (readsMember_spread tag (reads_spreadAt value exact (depth + 1))) .nil)

lemma reads_spreadItems : (ds : List Document) → areExact ds → (depth : Nat) →
    List.Forall₂ Reads ((spreadItems depth ds).map String.toList) (toNodes ds)
  | [], _, _ => .nil
  | d :: ds, exact, depth => by
    obtain ⟨first, rest⟩ := Bool.and_eq_true_iff.1 exact
    exact .cons (reads_spreadAt d first depth) (reads_spreadItems ds rest depth)

lemma reads_spreadMembers : (ms : List (String × Document)) → membersAreExact ms →
    (depth : Nat) →
    List.Forall₂ ReadsMember ((spreadMembers depth ms).map String.toList) (toMembers ms)
  | [], _, _ => .nil
  | (k, d) :: ms, exact, depth => by
    obtain ⟨first, rest⟩ := Bool.and_eq_true_iff.1 exact
    exact .cons (readsMember_spread k (reads_spreadAt d first depth))
      (reads_spreadMembers ms rest depth)

end

/-! ### Whole texts -/

/-- A text of a document is read as its node as far as it is readable. -/
lemma readWithin?_of_reads {s : String} {n : Node} (reads : Reads s.toList n) (room : Nat) :
    readWithin? room s = some (n.limited room) := by
  have value : value? (2 * s.length + 2) s.toList = some (n, []) := by
    have := reads (2 * s.length + 2) [] (by simp [String.length_toList]) nofun
    rwa [List.append_nil] at this
  rw [readWithin?, value]
  rfl

/-- What is written in the compact form is read again, unless it has floating-point numbers, whole
ones of more than 64 bits, or is nested too deep. -/
theorem read?_compact {d : Document} (exact : isExact d) (shallow : depth d ≤ depthLimit) :
    read? (compact d) = some d.toNode := by
  rw [read?, readWithin?_of_reads (reads_compact d exact), limited_toNode d shallow]

/-- The same holds of the spread form. -/
theorem read?_spread {d : Document} (exact : isExact d) (shallow : depth d ≤ depthLimit) :
    read? (spread d) = some d.toNode := by
  rw [read?, spread, readWithin?_of_reads (reads_spreadAt d exact 0), limited_toNode d shallow]

end Injector.Json
