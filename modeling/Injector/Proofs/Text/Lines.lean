import Injector.Text.Lines
import Mathlib.Data.List.Infix
import Mathlib.Tactic.Common

/-!
# What stands on a line

A text without line feeds that stands in another one stands on a line of it, and indenting leaves it
there. A text with a line feed stands on no line.
-/

namespace Injector

/-- A text stands on a line of another one. -/
def IsOnLine (s text : String) : Prop := ∃ line ∈ textLines text, s.toList <:+: line.toList

/-! ### Parting lines -/

/-- Some characters that no end of a line parts: they are not empty, there is no line feed among
them, and the last one is no carriage return, which may belong to the end of a line. -/
structure IsWhole (s : List Char) : Prop where
  ne : s ≠ []
  free : '\n' ∉ s
  last : s.getLast? ≠ some '\r'

lemma IsWhole.of_cons {c : Char} {s : List Char} (h : IsWhole (c :: s)) (ne : s ≠ []) :
    IsWhole s where
  ne := ne
  free mem := h.free (List.mem_cons_of_mem c mem)
  last eq := h.last (by rw [List.getLast?_cons, eq, Option.getD_some])

lemma newline_not_mem_of_mem_splitLines {l line : List Char} (h : line ∈ splitLines l) :
    '\n' ∉ line := by
  induction l using splitLines.induct generalizing line with
  | case1 => cases h
  | case2 cs ih | case3 cs ih =>
    rw [splitLines] at h
    rcases List.mem_cons.1 h with rfl | h
    · exact List.not_mem_nil
    · exact ih h
  | case4 c cs feed ending none ih =>
    rw [splitLines.eq_4 c cs feed ending, none] at h
    obtain rfl := List.mem_singleton.1 h
    simpa using fun eq => feed eq.symm
  | case5 c cs feed ending first rest some ih =>
    rw [splitLines.eq_4 c cs feed ending, some] at h
    rw [some] at ih
    rcases List.mem_cons.1 h with rfl | h
    · have own : '\n' ≠ c := fun eq => feed eq.symm
      simpa [own] using ih List.mem_cons_self
    · exact ih (List.mem_cons_of_mem _ h)

/-- What a text begins with, its first line begins with. -/
lemma IsWhole.exists_isPrefix {s l : List Char} (whole : IsWhole s) (h : s <+: l) :
    ∃ first rest, splitLines l = first :: rest ∧ s <+: first := by
  obtain ⟨c, s, rfl⟩ := List.exists_cons_of_ne_nil whole.ne
  induction l using splitLines.induct generalizing c s with
  | case1 => simp at h
  | case2 cs =>
    obtain ⟨rfl, -⟩ := List.cons_prefix_cons.1 h
    exact absurd List.mem_cons_self whole.free
  | case3 cs =>
    obtain ⟨rfl, rest⟩ := List.cons_prefix_cons.1 h
    cases s with
    | nil => exact absurd rfl whole.last
    | cons d s =>
      obtain ⟨rfl, -⟩ := List.cons_prefix_cons.1 rest
      exact absurd (by simp) whole.free
  | case4 d cs feed ending none ih =>
    obtain ⟨rfl, rest⟩ := List.cons_prefix_cons.1 h
    rw [splitLines.eq_4 c cs feed ending, none]
    cases s with
    | nil => exact ⟨[c], [], rfl, List.prefix_rfl⟩
    | cons d s =>
      obtain ⟨first, others, eq, -⟩ := ih d s (whole.of_cons (List.cons_ne_nil d s)) rest
      cases none.symm.trans eq
  | case5 d cs feed ending first others some ih =>
    obtain ⟨rfl, rest⟩ := List.cons_prefix_cons.1 h
    rw [splitLines.eq_4 c cs feed ending, some]
    refine ⟨c :: first, others, rfl, List.cons_prefix_cons.2 ⟨rfl, ?_⟩⟩
    cases s with
    | nil => exact List.nil_prefix
    | cons d s =>
      obtain ⟨first', others', eq, starts⟩ := ih d s (whole.of_cons (List.cons_ne_nil d s)) rest
      cases some.symm.trans eq
      exact starts

/-- What stands in a text stands on a line of it. -/
lemma IsWhole.exists_isInfix {s l : List Char} (whole : IsWhole s) (h : s <:+: l) :
    ∃ line ∈ splitLines l, s <:+: line := by
  have starts : ∀ {l}, s <+: l → ∃ line ∈ splitLines l, s <:+: line := by
    intro l h
    obtain ⟨first, rest, eq, starts⟩ := whole.exists_isPrefix h
    exact ⟨first, eq ▸ List.mem_cons_self, starts.isInfix⟩
  induction l using splitLines.induct with
  | case1 => exact absurd (List.infix_nil.1 h) whole.ne
  | case2 cs ih =>
    rcases List.infix_cons_iff.1 h with front | later
    · exact starts front
    · obtain ⟨line, mem, within⟩ := ih later
      exact ⟨line, List.mem_cons_of_mem _ mem, within⟩
  | case3 cs ih =>
    rcases List.infix_cons_iff.1 h with front | later
    · exact starts front
    rcases List.infix_cons_iff.1 later with front | later
    · obtain ⟨c, s, rfl⟩ := List.exists_cons_of_ne_nil whole.ne
      obtain ⟨rfl, -⟩ := List.cons_prefix_cons.1 front
      exact absurd List.mem_cons_self whole.free
    · obtain ⟨line, mem, within⟩ := ih later
      exact ⟨line, List.mem_cons_of_mem _ mem, within⟩
  | case4 c cs feed ending none ih =>
    rcases List.infix_cons_iff.1 h with front | later
    · exact starts front
    · obtain ⟨line, mem, -⟩ := ih later
      rw [none] at mem
      cases mem
  | case5 c cs feed ending first rest some ih =>
    rcases List.infix_cons_iff.1 h with front | later
    · exact starts front
    obtain ⟨line, mem, within⟩ := ih later
    rw [splitLines.eq_4 c cs feed ending, some]
    rw [some] at mem
    rcases List.mem_cons.1 mem with rfl | mem
    · exact ⟨c :: line, List.mem_cons_self, List.infix_cons within⟩
    · exact ⟨line, List.mem_cons_of_mem _ mem, within⟩

/-- A line feed ends what is before it. -/
lemma splitLines_append {l : List Char} (free : '\n' ∉ l) (last : l.getLast? ≠ some '\r')
    (cs : List Char) : splitLines (l ++ '\n' :: cs) = l :: splitLines cs := by
  induction l with
  | nil => rw [List.nil_append, splitLines]
  | cons c l ih =>
    have feed : c ≠ '\n' := fun eq => free (eq ▸ List.mem_cons_self)
    have ending : ∀ cs', c = '\r' → l ++ '\n' :: cs = '\n' :: cs' → False := by
      rintro cs' rfl eq
      cases l with
      | nil => exact last rfl
      | cons d l =>
        obtain rfl : d = '\n' := (List.cons.inj eq).1
        exact free (by simp)
    have tail : l.getLast? ≠ some '\r' := by
      intro eq
      exact last (by rw [List.getLast?_cons, eq, Option.getD_some])
    have rest := ih (fun mem => free (List.mem_cons_of_mem c mem)) tail
    rw [List.cons_append, splitLines.eq_4 c _ feed ending, rest]

lemma IsWhole.splitLines_eq {l : List Char} (whole : IsWhole l) : splitLines l = [l] := by
  induction l with
  | nil => exact absurd rfl whole.ne
  | cons c l ih =>
    have feed : c ≠ '\n' := fun eq => whole.free (eq ▸ List.mem_cons_self)
    have ending : ∀ cs', c = '\r' → l = '\n' :: cs' → False := by
      rintro cs' - rfl
      exact whole.free (by simp)
    rw [splitLines.eq_4 c l feed ending]
    cases l with
    | nil => rfl
    | cons d l => rw [ih (whole.of_cons (List.cons_ne_nil d l))]

/-! ### Texts -/

section Texts

variable {s text : String}

lemma IsWhole.isOnLine (whole : IsWhole s.toList) (h : s.toList <:+: text.toList) :
    IsOnLine s text := by
  obtain ⟨line, mem, within⟩ := whole.exists_isInfix h
  refine ⟨String.ofList line, List.mem_map_of_mem mem, ?_⟩
  rwa [String.toList_ofList]

/-- A text with a line feed is parted by it. -/
lemma not_isOnLine (feed : '\n' ∈ s.toList) : ¬IsOnLine s text := by
  rintro ⟨line, mem, within⟩
  obtain ⟨chars, hc, rfl⟩ := List.mem_map.1 mem
  rw [String.toList_ofList] at within
  exact newline_not_mem_of_mem_splitLines hc (within.subset feed)

/-- What stands on a line stands there with anything in front of the line, too. -/
lemma isInfix_append {line : String} (h : s.toList <:+: line.toList) (front : String) :
    s.toList <:+: (front ++ line).toList := by
  rw [String.toList_append]
  exact List.infix_append_of_infix_right h

lemma isInfix_intercalate {line : String} {lines : List String} (sep : String)
    (h : line ∈ lines) : line.toList <:+: (sep.intercalate lines).toList := by
  induction lines with
  | nil => cases h
  | cons first rest ih =>
    cases rest with
    | nil =>
      obtain rfl := List.mem_singleton.1 h
      simp
    | cons second rest =>
      rw [String.intercalate_cons_cons]
      rcases List.mem_cons.1 h with rfl | h
      · simp only [String.toList_append, List.append_assoc]
        exact (List.prefix_append _ _).isInfix
      · exact isInfix_append (ih h) (first ++ sep)

/-- What stands in a text stands in it after it was indented. -/
lemma IsWhole.isInfix_indent (whole : IsWhole s.toList) (h : s.toList <:+: text.toList) :
    s.toList <:+: (indent text).toList := by
  obtain ⟨line, mem, within⟩ := whole.isOnLine h
  have indented : s.toList <:+: (indentLine line).toList := by
    rw [indentLine]
    split
    · exact within
    · exact isInfix_append within oneLevel
  exact indented.trans (isInfix_intercalate "\n" (List.mem_map_of_mem mem))

end Texts

/-! ### Lists of lines -/

/-- The text of some lines, each with its end. -/
def unlines (lines : List String) : String := String.join (lines.map (· ++ "\n"))

@[simp] lemma unlines_nil : unlines [] = "" := rfl

@[simp] lemma unlines_cons (l : String) (ls : List String) :
    unlines (l :: ls) = l ++ "\n" ++ unlines ls := String.join_cons

@[simp] lemma unlines_append (ls ls' : List String) :
    unlines (ls ++ ls') = unlines ls ++ unlines ls' := by
  rw [unlines, List.map_append, String.join_append]
  rfl

/-- Lines that are joined end with the last one. -/
lemma intercalate_eq_unlines (ls : List String) (last : String) :
    "\n".intercalate (ls ++ [last]) = unlines ls ++ last := by
  induction ls with
  | nil => simp
  | cons l ls ih =>
    rw [List.cons_append, String.intercalate_cons_of_ne_nil (by simp), ih, unlines_cons]
    simp only [String.append_assoc]

/-- Lines that no end of a line parts are the lines of the text that they make. -/
lemma textLines_intercalate {ls : List String} {last : String}
    (whole : ∀ l ∈ ls ++ [last], IsWhole l.toList) :
    textLines ("\n".intercalate (ls ++ [last])) = ls ++ [last] := by
  rw [intercalate_eq_unlines]
  induction ls with
  | nil =>
    have single := (whole last (by simp)).splitLines_eq
    simp [textLines, single]
  | cons l ls ih =>
    have own := whole l List.mem_cons_self
    have rest := ih fun l' mem => whole l' (List.mem_cons_of_mem l mem)
    have chars : (unlines (l :: ls) ++ last).toList =
        l.toList ++ '\n' :: (unlines ls ++ last).toList := by
      simp
    rw [textLines, chars, splitLines_append own.free own.last, List.map_cons, String.ofList_toList]
    exact congrArg (l :: ·) rest

lemma isInfix_unlines {line : String} {lines : List String} (h : line ∈ lines) :
    line.toList <:+: (unlines lines).toList := by
  have ended : line.toList <:+: (line ++ "\n").toList := by
    rw [String.toList_append]
    exact (List.prefix_append _ _).isInfix
  rw [unlines, String.toList_join]
  exact ended.trans (List.infix_of_mem_flatten (List.mem_map_of_mem (List.mem_map_of_mem h)))

end Injector
