import Injector.Files.Tree
import Mathlib.Data.List.DropRight

/-!
# Where paths lead

A path leads from a working directory to a place, whatever files there are: its names are gone
through one by one, and idle ones do not count. A joined path leads where its first part leads, and
on from there along the second one.
-/

namespace Injector.Path

/-! ### Pieces -/

lemma splitSlashes_eq (l : List Char) : splitSlashes l = l.splitOn '/' := by
  induction l with
  | nil => simp [splitSlashes]
  | cons c cs ih =>
    rw [splitSlashes, ih, List.splitOn_cons_eq_if_modifyHead]
    cases h : cs.splitOn '/' with
    | nil => exact absurd h (by simp)
    | cons piece rest => by_cases hc : c = '/' <;> simp [hc]

lemma not_mem_of_mem_splitOn {l piece : List Char} (h : piece ∈ l.splitOn '/') : '/' ∉ piece := by
  induction l generalizing piece with
  | nil => simp_all
  | cons c cs ih =>
    rw [List.splitOn_cons_eq_if_modifyHead] at h
    cases hs : cs.splitOn '/' with
    | nil => exact absurd hs (by simp)
    | cons first rest =>
      rw [hs] at h ih
      by_cases hc : c = '/'
      · rw [if_pos (by simp [hc])] at h
        rcases List.mem_cons.1 h with rfl | h
        · exact List.not_mem_nil
        · exact ih h
      · rw [if_neg (by simpa using hc)] at h
        rcases List.mem_cons.1 h with rfl | h
        · simpa [Ne.symm hc] using ih List.mem_cons_self
        · exact ih (List.mem_cons_of_mem first h)

lemma pieces_ne_nil (s : String) : pieces s ≠ [] := by
  simp [pieces, splitSlashes_eq]

lemma toList_pieces (s : String) : (pieces s).map String.toList = s.toList.splitOn '/' := by
  rw [pieces, splitSlashes_eq, List.map_map]
  exact (List.map_congr_left fun l _ => String.toList_ofList).trans (List.map_id _)

/-- A slash parts the pieces before it from those after it. -/
lemma pieces_slash (a b : String) : pieces (a ++ "/" ++ b) = pieces a ++ pieces b := by
  have chars : (a ++ "/" ++ b).toList = a.toList ++ '/' :: b.toList := by simp
  simp only [pieces, chars, splitSlashes_eq, List.splitOn_append_cons_self, List.map_append]

/-- A path is made of its pieces. -/
lemma intercalate_pieces (s : String) : "/".intercalate (pieces s) = s := by
  apply String.toList_inj.1
  rw [String.toList_intercalate, toList_pieces]
  exact List.intercalate_splitOn '/'

/-- Pieces without slashes are those of the path that they make. -/
lemma pieces_intercalate {l : List String} (ne : l ≠ []) (free : ∀ p ∈ l, '/' ∉ p.toList) :
    pieces ("/".intercalate l) = l := by
  have split : (['/'].intercalate (l.map String.toList)).splitOn '/' = l.map String.toList := by
    apply List.splitOn_intercalate
    · simpa using free
    · simpa using ne
  have chars : ("/".intercalate l).toList = ['/'].intercalate (l.map String.toList) :=
    String.toList_intercalate
  rw [pieces, splitSlashes_eq, chars, split, List.map_map]
  exact (List.map_congr_left fun p _ => String.ofList_toList).trans (List.map_id _)

lemma pieces_of_not_mem {s : String} (h : '/' ∉ s.toList) : pieces s = [s] := by
  have single := pieces_intercalate (l := [s]) (by simp) (by simpa using h)
  rwa [String.intercalate_singleton] at single

lemma not_mem_of_mem_pieces {s p : String} (h : p ∈ pieces s) : '/' ∉ p.toList := by
  apply not_mem_of_mem_splitOn (l := s.toList)
  rw [← toList_pieces]
  exact List.mem_map_of_mem h

/-! ### Names that count -/

/-- The names of a path that are not idle. -/
def trail (path : String) : List String := (pieces path).filter (!isIdle ·)

@[simp] lemma trail_empty : trail "" = [] := by
  rw [trail, pieces_of_not_mem (by simp)]
  rfl

@[simp] lemma trail_dot : trail "." = [] := by
  rw [trail, pieces_of_not_mem (by decide)]
  rfl

@[simp] lemma trail_slash (a b : String) : trail (a ++ "/" ++ b) = trail a ++ trail b := by
  rw [trail, pieces_slash, List.filter_append]
  rfl

@[simp] lemma trail_slash_end (a : String) : trail (a ++ "/") = trail a := by
  simpa using trail_slash a ""

@[simp] lemma trail_slash_front (b : String) : trail ("/" ++ b) = trail b := by
  simpa using trail_slash "" b

lemma trail_intercalate {l : List String} (free : ∀ p ∈ l, '/' ∉ p.toList) :
    trail ("/".intercalate l) = l.filter (!isIdle ·) := by
  by_cases ne : l = []
  · subst ne
    simp
  · rw [trail, pieces_intercalate ne free]

/-! ### Absolute paths -/

@[simp] lemma isAbsolute_slash_front (s : String) : isAbsolute ("/" ++ s) = true := by
  simp [isAbsolute]

lemma isAbsolute_append {a : String} (ne : a ≠ "") (b : String) :
    isAbsolute (a ++ b) = isAbsolute a := by
  have chars : a.toList ≠ [] := by simpa using ne
  obtain ⟨c, cs, eq⟩ := List.exists_cons_of_ne_nil chars
  simp [isAbsolute, eq]

lemma exists_of_isAbsolute {s : String} (h : isAbsolute s = true) : ∃ t, s = "/" ++ t := by
  have first : s.toList.head? = some '/' := by simpa [isAbsolute] using h
  obtain ⟨cs, eq⟩ := List.head?_eq_some_iff.1 first
  refine ⟨String.ofList cs, String.toList_inj.1 ?_⟩
  simp [eq]

lemma trail_dot_front {s : String} (h : s = "" ∨ isAbsolute s = true) :
    trail ("." ++ s) = trail s := by
  rcases h with rfl | absolute
  · simp
  · obtain ⟨t, rfl⟩ := exists_of_isAbsolute absolute
    rw [← String.append_assoc, trail_slash, trail_slash_front, trail_dot, List.nil_append]

lemma exists_of_endsWithSlash {s : String} (h : endsWithSlash s = true) : ∃ t, s = t ++ "/" := by
  have last : s.toList.getLast? = some '/' := by simpa [endsWithSlash] using h
  obtain ⟨cs, eq⟩ := List.getLast?_eq_some_iff.1 last
  refine ⟨String.ofList cs, String.toList_inj.1 ?_⟩
  simp [eq]

/-! ### Places -/

/-- The place that a path leads to from a working directory. -/
def location (working : Location) (path : String) : Location :=
  (trail path).foldl FileTree.step (if isAbsolute path then [] else working)

/-- Where a path is a matter of whether it is absolute and of the names that count. -/
lemma location_congr {a b : String} (absolute : isAbsolute a = isAbsolute b)
    (same : trail a = trail b) (working : Location) : location working a = location working b := by
  rw [location, location, absolute, same]

/-- Paths are joined end to end. -/
theorem location_join (working : Location) (a b : String) :
    location working (join a b) = location (location working a) b := by
  cases hb : isAbsolute b with
  | true => simp [join, location, hb]
  | false =>
    have joined : trail (join a b) = trail a ++ trail b ∧
        isAbsolute (join a b) = isAbsolute a := by
      rw [join, if_neg (by simp [hb])]
      split
      · next plain =>
        rcases Bool.or_eq_true_iff.1 plain with empty | slash
        · obtain rfl : a = "" := by simpa using empty
          exact ⟨by simp, by simpa [isAbsolute] using hb⟩
        · obtain ⟨t, rfl⟩ := exists_of_endsWithSlash slash
          exact ⟨by simp, isAbsolute_append (by simp) b⟩
      · next bare =>
        have ne : a ≠ "" := by
          rintro rfl
          exact bare rfl
        rw [trail_slash, String.append_assoc, isAbsolute_append ne]
        exact ⟨rfl, rfl⟩
    rw [location, joined.1, joined.2, List.foldl_append]
    simp [location, hb]

lemma eq_foldl_of_follow {t : FileTree} {ns : List String} {start at_ : Location}
    (h : t.follow start ns = .ok at_) : at_ = ns.foldl FileTree.step start := by
  induction ns generalizing start with
  | nil => exact (Except.ok.inj h).symm
  | cons n ns ih =>
    rw [FileTree.follow] at h
    split at h
    · exact ih h
    · cases h
    · cases h

/-- A name that means the directory itself does not lead away from it. -/
lemma foldl_step_filter (ns : List String) (start : Location) :
    (ns.filter (!·.isEmpty)).foldl FileTree.step start =
      (ns.filter (!isIdle ·)).foldl FileTree.step start := by
  induction ns generalizing start with
  | nil => simp
  | cons n ns ih =>
    by_cases empty : n = ""
    · simpa [empty, isIdle] using ih start
    · by_cases dot : n = "."
      · simpa [dot, isIdle, FileTree.step] using ih start
      · simpa [empty, dot, isIdle] using ih (FileTree.step start n)

/-- Whatever files there are, a path that can be followed leads to its place. -/
theorem eq_location_of_locate {t : FileTree} {path : String} {at_ : Location}
    (h : t.locate path = .ok at_) : at_ = location t.working path := by
  rw [FileTree.locate] at h
  split at h
  · cases h
  · rw [eq_foldl_of_follow h, names, foldl_step_filter]
    rfl

/-! ### Files in directories -/

/-- A name by which a file can stand in a directory. -/
structure IsFileName (name : String) : Prop where
  free : '/' ∉ name.toList
  counts : isIdle name = false
  ne_parent : name ≠ ".."

namespace IsFileName

variable {name : String} (h : IsFileName name)
include h

lemma trail_eq : trail name = [name] := by
  rw [trail, pieces_of_not_mem h.free]
  simp [h.counts]

lemma step_eq (at_ : Location) : FileTree.step at_ name = name :: at_ := by
  have ne : name ≠ "." := by
    rintro rfl
    exact absurd h.counts (by decide)
  rw [FileTree.step, if_neg ne, if_neg h.ne_parent]

lemma isAbsolute_eq : isAbsolute name = false := by
  apply eq_false_of_ne_true
  intro absolute
  obtain ⟨t, rfl⟩ := exists_of_isAbsolute absolute
  exact h.free (by simp)

/-- A file lies in the working directory by its name. -/
lemma location_eq (at_ : Location) : location at_ name = name :: at_ := by
  simp [location, h.trail_eq, h.isAbsolute_eq, h.step_eq]

/-- A file lies in the directory that its path begins with. -/
lemma location_slash (at_ : Location) (directory : String) :
    location at_ (directory ++ "/" ++ name) = name :: location at_ (directory ++ "/") := by
  have absolute : isAbsolute (directory ++ "/" ++ name) = isAbsolute (directory ++ "/") :=
    isAbsolute_append (by simp) name
  rw [location, trail_slash, h.trail_eq, absolute, List.foldl_append, location, trail_slash_end]
  exact h.step_eq _

end IsFileName

/-! ### Directories of paths -/

/-- The directory part of a path, which is empty if it has none. -/
def directoryOf (path : String) : String := (parent? path).getD ""

/-- A path without the idle pieces at its end. -/
def front (path : String) : String := "/".intercalate (dropIdleEnd (pieces path))

lemma trail_front (path : String) : trail (front path) = trail path := by
  have whole : dropIdleEnd (pieces path) ++ (pieces path).rtakeWhile isIdle = pieces path :=
    List.rdropWhile_append_rtakeWhile
  have idle : ((pieces path).rtakeWhile isIdle).filter (!isIdle ·) = [] := by
    apply List.filter_eq_nil_iff.2
    intro p hp
    simpa using List.mem_rtakeWhile_imp hp
  have free : ∀ p ∈ dropIdleEnd (pieces path), '/' ∉ p.toList := by
    intro p hp
    apply not_mem_of_mem_pieces (s := path)
    rw [← whole]
    exact List.mem_append_left _ hp
  rw [front, trail_intercalate free, trail, ← whole, List.filter_append, whole, idle,
    List.append_nil]

/-- A path begins with its first piece, or with a slash if that is empty. -/
lemma head?_intercalate {p : String} {ps : List String} (h : p = "" → ps ≠ []) :
    ("/".intercalate (p :: ps)).toList.head? = (p ++ "/").toList.head? := by
  cases ps with
  | nil =>
    have ne : p.toList ≠ [] := fun empty => h (by simpa using empty) rfl
    obtain ⟨c, cs, eq⟩ := List.exists_cons_of_ne_nil ne
    simp [eq]
  | cons q qs =>
    rw [String.intercalate_cons_cons, String.toList_append, List.head?_append_of_ne_nil _ (by simp)]

/-- A path without the idle pieces at its end begins in the same way, unless nothing is left. -/
lemma head?_front (path : String) :
    front path = "" ∨ (front path).toList.head? = path.toList.head? := by
  have whole : dropIdleEnd (pieces path) ++ (pieces path).rtakeWhile isIdle = pieces path :=
    List.rdropWhile_append_rtakeWhile
  have last : ∀ p, dropIdleEnd (pieces path) = [p] → p ≠ "" := by
    rintro p kept rfl
    have counts := List.rdropWhile_last_not isIdle (pieces path) (by
      rw [show (pieces path).rdropWhile isIdle = [""] from kept]
      simp)
    simp [show (pieces path).rdropWhile isIdle = [""] from kept, isIdle] at counts
  have text := intercalate_pieces path
  rw [front]
  cases kept : dropIdleEnd (pieces path) with
  | nil => exact .inl rfl
  | cons p ps =>
    right
    rw [kept, List.cons_append] at whole
    rw [← whole] at text
    have more : p = "" → ps ≠ [] := by
      rintro rfl rfl
      exact last "" kept rfl
    rw [head?_intercalate more, ← text, head?_intercalate]
    intro empty
    exact List.append_ne_nil_of_left_ne_nil (more empty) _

/-- What is left of a path that begins with the name `.`. -/
lemma exists_of_head?_pieces {path : String} (h : (pieces path).head? = some ".") :
    ∃ e, path = "." ++ e ∧ (e = "" ∨ isAbsolute e = true) := by
  obtain ⟨ps, parts⟩ := List.head?_eq_some_iff.1 h
  have text := intercalate_pieces path
  rw [parts] at text
  cases ps with
  | nil => exact ⟨"", by simpa using text.symm, .inl rfl⟩
  | cons q qs =>
    rw [String.intercalate_cons_cons, String.append_assoc] at text
    exact ⟨_, text.symm, .inr (isAbsolute_slash_front _)⟩

/-- After its anchor, a path can lose the idle pieces at its end. -/
lemma exists_location_front (path : String) : ∃ e, path = anchor path ++ e ∧
    ∀ working, location working (anchor path ++ front e) = location working path := by
  cases absolute : isAbsolute path with
  | true =>
    obtain ⟨e, rfl⟩ := exists_of_isAbsolute absolute
    have anchored : anchor ("/" ++ e) = "/" := by rw [anchor, if_pos absolute]
    refine ⟨e, by rw [anchored], location_congr ?_ ?_⟩
    · rw [anchored, absolute, isAbsolute_slash_front]
    · rw [anchored, trail_slash_front, trail_front, trail_slash_front]
  | false =>
    by_cases here : (pieces path).head? = some "."
    · obtain ⟨e, rfl, rest⟩ := exists_of_head?_pieces here
      have anchored : anchor ("." ++ e) = "." := by
        rw [anchor, absolute, if_neg (by simp), if_pos here]
      have restFront : front e = "" ∨ isAbsolute (front e) = true := by
        rcases head?_front e with empty | same
        · exact .inl empty
        · rcases rest with rfl | rooted
          · exact .inl (by simpa using same)
          · right
            rw [isAbsolute, same]
            exact rooted
      refine ⟨e, by rw [anchored], location_congr ?_ ?_⟩
      · rw [anchored, isAbsolute_append (by simp), isAbsolute_append (by simp)]
      · rw [anchored, trail_dot_front restFront, trail_front, trail_dot_front rest]
    · have anchored : anchor path = "" := by
        rw [anchor, absolute, if_neg (by simp), if_neg here]
      refine ⟨path, by rw [anchored, String.empty_append], location_congr ?_ ?_⟩
      · rw [anchored, String.empty_append, absolute]
        rcases head?_front path with empty | same
        · rw [empty]
          rfl
        · rw [isAbsolute, same]
          exact absolute
      · rw [anchored, String.empty_append, trail_front]

lemma anchor_slash {a : String} (ne : a ≠ "") (b : String) :
    anchor (a ++ "/" ++ b) = anchor a := by
  have first : (pieces (a ++ "/" ++ b)).head? = (pieces a).head? := by
    rw [pieces_slash, List.head?_append_of_ne_nil _ (pieces_ne_nil a)]
  rw [anchor, anchor, first, String.append_assoc, isAbsolute_append ne]

section Directory

variable {name : String} (h : IsFileName name)
include h

lemma IsFileName.pieces_slash_name (directory : String) :
    pieces (directory ++ "/" ++ name) = pieces directory ++ [name] := by
  rw [pieces_slash, pieces_of_not_mem h.free]

/-- The directory of a path is found from its pieces after the anchor. -/
lemma directoryOf_eq {path : String} {l : List String}
    (rest : pieces (String.ofList (path.toList.drop (anchor path).length)) = l ++ [name]) :
    directoryOf path = anchor path ++ "/".intercalate (dropIdleEnd l) := by
  have parts : body path = l ++ [name] := by
    rw [body, rest]
    exact List.rdropWhile_concat_neg isIdle l name (by simp [h.counts])
  rw [directoryOf, parent?, parts]
  simp

lemma directoryOf_of_anchor {a e : String} (anchored : anchor (a ++ e ++ "/" ++ name) = a) :
    directoryOf (a ++ e ++ "/" ++ name) = a ++ front e := by
  have rest : String.ofList ((a ++ e ++ "/" ++ name).toList.drop a.length) = e ++ "/" ++ name := by
    apply String.toList_inj.1
    simp [← String.length_toList]
  have parts : pieces (String.ofList ((a ++ e ++ "/" ++ name).toList.drop
      (anchor (a ++ e ++ "/" ++ name)).length)) = pieces e ++ [name] := by
    rw [anchored, rest, h.pieces_slash_name]
  rw [directoryOf_eq h parts, anchored]
  rfl

/-- The directory part of the path of a file leads to the directory that the path begins with. -/
theorem location_directoryOf (at_ : Location) (directory : String) :
    location at_ (directoryOf (directory ++ "/" ++ name)) = location at_ (directory ++ "/") := by
  by_cases root : directory = ""
  · subst root
    have anchored : anchor ("" ++ "/" ++ name) = "/" := by simp [anchor]
    have rest : pieces (String.ofList (("" ++ "/" ++ name).toList.drop 1)) = [] ++ [name] := by
      simp [pieces_of_not_mem h.free]
    rw [directoryOf_eq h (l := []) (by rw [anchored]; exact rest), anchored]
    rfl
  · obtain ⟨e, parts, same⟩ := exists_location_front directory
    have anchored : anchor (anchor directory ++ e ++ "/" ++ name) = anchor directory := by
      rw [← parts, anchor_slash root]
    calc location at_ (directoryOf (directory ++ "/" ++ name))
      _ = location at_ (anchor directory ++ front e) := by
        rw [← directoryOf_of_anchor h anchored, ← parts]
      _ = location at_ directory := same at_
      _ = location at_ (directory ++ "/") :=
        location_congr (isAbsolute_append root "/").symm (trail_slash_end directory).symm at_

end Directory

end Injector.Path
