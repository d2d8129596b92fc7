import Injector.Files
import Injector.Proofs.Files.Location

/-!
# Writing files

What is in a file tree after generated files have been written to it. A file that is written can be
read again by its path, as long as none that is written later takes its place. Directories stay, and
whatever else there was stays as it was.
-/

namespace Injector

/-! ### Texts as bytes -/

lemma toList_loop_eq (bytes : ByteArray) (i : Nat) (before : List UInt8) :
    ByteArray.toList.loop bytes i before = before.reverse ++ bytes.data.toList.drop i := by
  fun_induction ByteArray.toList.loop bytes i before with
  | case1 i before more ih =>
    have inside : i < bytes.data.toList.length := by simpa using more
    have first : bytes.data.toList.drop i = bytes.get! i :: bytes.data.toList.drop (i + 1) := by
      rw [List.drop_eq_getElem_cons inside]
      have size : i < bytes.data.size := more
      simp only [ByteArray.get!, getElem!_pos bytes.data i size, Array.getElem_toList]
    rw [ih, first, List.reverse_cons, List.append_assoc, List.singleton_append]
  | case2 i before ended =>
    have none : bytes.data.toList.drop i = [] := by
      apply List.drop_eq_nil_of_le
      simpa using ended
    rw [none, List.append_nil]

/-- A text is read from its bytes. -/
lemma textOf?_toUTF8 (s : String) : textOf? s.toUTF8.toList = some s := by
  have bytes : (⟨s.toUTF8.toList.toArray⟩ : ByteArray) = s.toUTF8 := by
    rw [ByteArray.toList, toList_loop_eq]
    simp
  have valid : s.toUTF8.IsValidUTF8 := s.isValidUTF8
  rw [textOf?, bytes, String.fromUTF8?, dif_pos valid]
  rfl

namespace FileTree

variable {t t' t'' : FileTree} {at_ : Location} {path : String}

/-! ### Places -/

lemma key_cons (name : String) (at_ : Location) :
    key (name :: at_) = if at_ = [] then name else key at_ ++ "/" ++ name := by
  by_cases root : at_ = []
  · simp [key, root]
  · have front : at_.reverse ≠ [] := by simpa using root
    rw [if_neg root, key, List.reverse_cons,
      String.intercalate_append_of_ne_nil front (List.cons_ne_nil _ _),
      String.intercalate_singleton]
    rfl

/-- Two names in one directory are two places. -/
lemma key_cons_inj {name other : String} (h : key (name :: at_) = key (other :: at_)) :
    name = other := by
  rw [key_cons, key_cons] at h
  split at h
  · exact h
  · exact (String.append_right_inj _).1 h

lemma find?_of_ne_nil (ne : at_ ≠ []) : t.find? at_ = t.entries.find? (key at_) := by
  rw [find?, if_neg]
  simpa using ne

/-- What is written to a tree, by its places. Directories stay, and what is not written to stays. -/
structure Takes (files : List (String × String)) (t t' : FileTree) : Prop where
  working : t'.working = t.working
  directories : ∀ k, t.entries.find? k = some .directory → t'.entries.find? k = some .directory
  kept : ∀ k bytes, t.entries.find? k = some (.file bytes) → (∀ f ∈ files, f.1 ≠ k) →
    t'.entries.find? k = some (.file bytes)
  written : ∀ k bytes, t'.entries.find? k = some (.file bytes) →
    t.entries.find? k = some (.file bytes) ∨ ∃ f ∈ files, f.1 = k ∧ bytes = f.2.toUTF8.toList

lemma Takes.refl (t : FileTree) : Takes [] t t where
  working := rfl
  directories _ h := h
  kept _ _ h _ := h
  written _ _ h := .inl h

lemma Takes.trans {files files' : List (String × String)} (h : Takes files t t')
    (h' : Takes files' t' t'') : Takes (files ++ files') t t'' where
  working := h'.working.trans h.working
  directories k hk := h'.directories k (h.directories k hk)
  kept k bytes hk free := h'.kept k bytes
    (h.kept k bytes hk fun f hf => free f (List.mem_append_left _ hf))
    fun f hf => free f (List.mem_append_right _ hf)
  written k bytes hk := by
    rcases h'.written k bytes hk with hk | ⟨f, hf, placed⟩
    · rcases h.written k bytes hk with hk | ⟨f, hf, placed⟩
      · exact .inl hk
      · exact .inr ⟨f, List.mem_append_left _ hf, placed⟩
    · exact .inr ⟨f, List.mem_append_right _ hf, placed⟩

/-- A path leads where it led before. -/
lemma Takes.follow {files : List (String × String)} (h : Takes files t t') {ns : List String}
    {start : Location} (leads : t.follow start ns = .ok at_) : t'.follow start ns = .ok at_ := by
  induction ns generalizing start with
  | nil => exact leads
  | cons n ns ih =>
    rw [FileTree.follow] at leads ⊢
    split at leads
    · next directory =>
      have kept : t'.find? start = some .directory := by
        by_cases root : start = []
        · subst root
          rfl
        · rw [find?_of_ne_nil root] at directory ⊢
          exact h.directories _ directory
      rw [kept]
      exact ih leads
    · cases leads
    · cases leads

lemma Takes.locate {files : List (String × String)} (h : Takes files t t')
    (leads : t.locate path = .ok at_) : t'.locate path = .ok at_ := by
  rw [FileTree.locate] at leads ⊢
  split at leads
  · cases leads
  · next ne =>
    rw [if_neg ne, FileTree.start, h.working]
    exact h.follow leads

/-! ### Making directories -/

lemma takes_put_directory (absent : t.find? at_ = none) : Takes [] t (t.put at_ .directory) := by
  have ne : at_ ≠ [] := by
    rintro rfl
    cases absent
  rw [find?_of_ne_nil ne] at absent
  have others : ∀ k e, (t.put at_ .directory).entries.find? k = some e ↔
      t.entries.find? k = some e ∨ k = key at_ ∧ e = .directory := by
    intro k e
    rw [put, Table.find?_insert]
    split
    · next eq =>
      subst eq
      simp [absent, eq_comm]
    · next other => simp [other]
  constructor
  · rfl
  · intro k hk
    exact (others k _).2 (.inl hk)
  · intro k bytes hk _
    exact (others k _).2 (.inl hk)
  · intro k bytes hk
    rcases (others k _).1 hk with hk | ⟨-, eq⟩
    · exact .inl hk
    · cases eq

lemma takes_makeAlong {ns : List String} {start : Location}
    (makes : t.makeAlong start ns = .ok t') : Takes [] t t' := by
  induction ns generalizing t start with
  | nil =>
    obtain rfl := Except.ok.inj makes
    exact .refl t
  | cons n ns ih =>
    rw [makeAlong] at makes
    split at makes
    · exact ih makes
    · cases makes
    · next absent => exact (takes_put_directory absent).trans (ih makes)

lemma takes_makeDirectories (makes : t.makeDirectories path = .ok t') : Takes [] t t' := by
  rw [makeDirectories] at makes
  exact takes_makeAlong makes

/-! ### Writing a file -/

/-- A file is written to the place that its path leads to, where no directory is. -/
lemma exists_of_write {bytes : List UInt8} (writes : t.write path bytes = .ok t') :
    t.locate path = .ok (Path.location t.working path) ∧
      t.find? (Path.location t.working path) ≠ some .directory ∧
      Path.endsWithSlash path = false ∧
      t' = t.put (Path.location t.working path) (.file bytes) := by
  rw [write] at writes
  cases located : t.locate path with
  | error fault =>
    rw [located] at writes
    cases writes
  | ok at_ =>
    obtain rfl := Path.eq_location_of_locate located
    rw [located] at writes
    simp only [bind, Except.bind] at writes
    split at writes
    · cases writes
    · cases writes
    · next file free => exact ⟨rfl, free, file, (Except.ok.inj writes).symm⟩

lemma takes_put_file {text : String} (free : t.find? at_ ≠ some .directory) :
    Takes [(key at_, text)] t (t.put at_ (.file text.toUTF8.toList)) := by
  have ne : at_ ≠ [] := by
    rintro rfl
    exact free rfl
  rw [find?_of_ne_nil ne] at free
  have others : ∀ k ≠ key at_, (t.put at_ (.file text.toUTF8.toList)).entries.find? k =
      t.entries.find? k := by
    intro k other
    rw [put, Table.find?_insert, if_neg other]
  constructor
  · rfl
  · intro k hk
    rwa [others k]
    rintro rfl
    exact free hk
  · intro k bytes hk apart
    rwa [others k]
    rintro rfl
    exact apart _ List.mem_cons_self rfl
  · intro k bytes hk
    by_cases eq : k = key at_
    · subst eq
      rw [put, Table.find?_insert, if_pos rfl] at hk
      cases hk
      exact .inr ⟨_, List.mem_cons_self, rfl, rfl⟩
    · rw [others k eq] at hk
      exact .inl hk

lemma read_eq_ok_iff {bytes : List UInt8} : t.read path = .ok bytes ↔
    t.locate path = .ok (Path.location t.working path) ∧
      t.find? (Path.location t.working path) = some (.file bytes) ∧
      Path.endsWithSlash path = false := by
  constructor
  · intro reads
    rw [read] at reads
    cases located : t.locate path with
    | error fault =>
      rw [located] at reads
      cases reads
    | ok at_ =>
      obtain rfl := Path.eq_location_of_locate located
      rw [located] at reads
      simp only [bind, Except.bind] at reads
      split at reads
      · next found =>
        split at reads
        · cases reads
        · next file =>
          cases reads
          exact ⟨rfl, found, by simpa using file⟩
      · cases reads
      · cases reads
  · rintro ⟨located, found, file⟩
    rw [read, located]
    simp only [bind, Except.bind, found, file]
    rfl

/-- A file that is written can be read. -/
lemma read_of_write {text : String} (writes : t.write path text.toUTF8.toList = .ok t') :
    t'.read path = .ok text.toUTF8.toList := by
  obtain ⟨located, free, file, rfl⟩ := exists_of_write writes
  have ne : Path.location t.working path ≠ [] := by
    intro root
    rw [root] at free
    exact free rfl
  apply read_eq_ok_iff.2
  refine ⟨(takes_put_file free).locate located, ?_, file⟩
  show (t.put (Path.location t.working path) (.file text.toUTF8.toList)).find?
    (Path.location t.working path) = some (.file text.toUTF8.toList)
  rw [find?_of_ne_nil ne, put, Table.find?_insert, if_pos rfl]

/-- A file stays readable if nothing else is written to its place. -/
lemma Takes.read {files : List (String × String)} (h : Takes files t t') {bytes : List UInt8}
    (reads : t.read path = .ok bytes)
    (apart : ∀ f ∈ files, f.1 ≠ key (Path.location t.working path)) :
    t'.read path = .ok bytes := by
  obtain ⟨located, found, file⟩ := read_eq_ok_iff.1 reads
  have ne : Path.location t.working path ≠ [] := by
    intro root
    rw [root] at found
    cases found
  rw [find?_of_ne_nil ne] at found
  apply read_eq_ok_iff.2
  rw [h.working]
  refine ⟨h.locate located, ?_, file⟩
  rw [find?_of_ne_nil ne]
  exact h.kept _ bytes found apart

/-! ### Runs on a file tree -/

variable {α β : Type}

lemma bind_apply (x : ExceptT Error (StateM FileTree) α)
    (f : α → ExceptT Error (StateM FileTree) β) (t : FileTree) :
    (x >>= f) t = (match x t with
      | (.ok a, t₁) => f a t₁
      | (.error e, t₁) => (.error e, t₁)) := by
  show (match x t with | (r, t₁) => ExceptT.bindCont f r t₁) = _
  rcases x t with ⟨e | a, t₁⟩ <;> rfl

lemma exists_of_bind {x : ExceptT Error (StateM FileTree) α}
    {f : α → ExceptT Error (StateM FileTree) β} {b : β}
    (done : (x >>= f) t = (.ok b, t')) : ∃ a t₁, x t = (.ok a, t₁) ∧ f a t₁ = (.ok b, t') := by
  rw [bind_apply] at done
  rcases first : x t with ⟨e | a, t₁⟩
  · rw [first] at done
    cases done
  · rw [first] at done
    exact ⟨a, t₁, rfl, done⟩

/-- What goes on only if a change of the tree does not fail goes on with the changed tree. -/
lemma exists_of_changeState {change : FileTree → Except FileFault FileTree}
    {f : Except FileFault Unit → ExceptT Error (StateM FileTree) β} {b : β}
    (fails : ∀ fault t₁, f (.error fault) t₁ ≠ (.ok b, t'))
    (done : (liftM (changeState change) >>= f) t = (.ok b, t')) :
    ∃ t₁, change t = .ok t₁ ∧ f (.ok ()) t₁ = (.ok b, t') := by
  obtain ⟨r, t₁, changes, done⟩ := exists_of_bind done
  have lifted : (liftM (changeState change) : ExceptT Error (StateM FileTree) _) t =
      (.ok (changeState change t).1, (changeState change t).2) := rfl
  rw [lifted, changeState] at changes
  cases made : change t with
  | error fault =>
    rw [made] at changes
    cases changes
    exact absurd done (fails fault _)
  | ok t₂ =>
    rw [made] at changes
    cases changes
    exact ⟨_, rfl, done⟩

/-- To place a file, its directory is made and the file is written. -/
lemma exists_of_place {text : String} (done : system.place path text t = (.ok (), t')) :
    ∃ t₁, Takes [] t t₁ ∧ t₁.write path text.toUTF8.toList = .ok t' := by
  unfold FileSystem.place at done
  cases parent : Path.parent? path with
  | none =>
    simp only [parent] at done
    obtain ⟨t₂, writes, done⟩ := exists_of_changeState (fun _ _ h => by cases h) done
    cases done
    exact ⟨t, .refl t, writes⟩
  | some directory =>
    simp only [parent] at done
    obtain ⟨t₁, makes, done⟩ := exists_of_changeState (fun _ _ h => by cases h) done
    obtain ⟨t₂, writes, done⟩ := exists_of_changeState (fun _ _ h => by cases h) done
    cases done
    exact ⟨t₁, takes_makeDirectories makes, writes⟩

/-- Where a file is written to, and what. -/
def destination (working : Location) (out : String) (f : String × String) : String × String :=
  (key (Path.location working (Path.join out f.1)), f.2)

/-- What placing one file does to a tree. -/
lemma takes_of_place {text : String} (done : system.place path text t = (.ok (), t')) :
    Takes [(key (Path.location t.working path), text)] t t' ∧
      t'.read path = .ok text.toUTF8.toList := by
  obtain ⟨t₁, makes, writes⟩ := exists_of_place done
  obtain ⟨-, free, -, rfl⟩ := exists_of_write writes
  have written : Takes [(key (Path.location t₁.working path), text)] t₁
      (t₁.put (Path.location t₁.working path) (.file text.toUTF8.toList)) := takes_put_file free
  rw [← makes.working]
  exact ⟨makes.trans written, read_of_write writes⟩

/-- The first of several files is placed before the others. -/
lemma exists_of_placeAll {out : String} {f : String × String} {files : List (String × String)}
    {paths : List String} (done : system.placeAll out (f :: files) t = (.ok paths, t')) :
    ∃ t₁ paths', system.place (Path.join out f.1) f.2 t = (.ok (), t₁) ∧
      system.placeAll out files t₁ = (.ok paths', t') ∧ paths = Path.join out f.1 :: paths' := by
  rw [FileSystem.placeAll] at done
  obtain ⟨⟨⟩, t₁, placed, done⟩ := exists_of_bind done
  obtain ⟨paths', t₂, others, done⟩ := exists_of_bind done
  cases done
  exact ⟨t₁, paths', placed, others, rfl⟩

theorem takes_of_placeAll {out : String} {files : List (String × String)} {paths : List String}
    (done : system.placeAll out files t = (.ok paths, t')) :
    Takes (files.map (destination t.working out)) t t' ∧
      paths = files.map fun f => Path.join out f.1 := by
  induction files generalizing t paths with
  | nil =>
    cases done
    exact ⟨.refl _, rfl⟩
  | cons f files ih =>
    obtain ⟨t₁, paths', first, others, rfl⟩ := exists_of_placeAll done
    obtain ⟨takes, -⟩ := takes_of_place first
    obtain ⟨takes', rfl⟩ := ih others
    rw [takes.working] at takes'
    exact ⟨takes.trans takes', rfl⟩

/-- A file that is placed can be read, if no later one is placed where it is. -/
theorem read_of_placeAll {out : String} {before after : List (String × String)}
    {f : String × String} {paths : List String}
    (done : system.placeAll out (before ++ f :: after) t = (.ok paths, t'))
    (apart : ∀ e ∈ after, (destination t.working out e).1 ≠ (destination t.working out f).1) :
    t'.read (Path.join out f.1) = .ok f.2.toUTF8.toList := by
  induction before generalizing t paths with
  | nil =>
    obtain ⟨t₁, paths', first, others, -⟩ := exists_of_placeAll done
    obtain ⟨takes, reads⟩ := takes_of_place first
    obtain ⟨takes', -⟩ := takes_of_placeAll others
    have place : (destination t.working out f).1 =
        key (Path.location t.working (Path.join out f.1)) := by rw [destination]
    apply takes'.read reads
    rw [takes.working, ← place]
    intro d hd
    obtain ⟨e, he, rfl⟩ := List.mem_map.1 hd
    exact apart e he
  | cons e before ih =>
    obtain ⟨t₁, paths', first, others, -⟩ := exists_of_placeAll done
    obtain ⟨takes, -⟩ := takes_of_place first
    rw [← takes.working] at apart
    exact ih others apart

/-- A text file is read as what was written to it. -/
lemma readText_of_read {text : String} (reads : t.read path = .ok text.toUTF8.toList) :
    system.readText path t = (.ok text, t) := by
  have bytes : (liftM (system.read path) : ExceptT Error (StateM FileTree) _) t =
      (.ok (.ok text.toUTF8.toList), t) :=
    congrArg (fun r => (Except.ok r, t)) reads
  rw [FileSystem.readText, bind_apply, bytes]
  simp only [textOf?_toUTF8]
  rfl

/-! ### What has changed -/

/-- What is below the working directory is found by its path from the root. -/
lemma eq_of_relative? {k : String} (below : t.relative? k = some path) :
    k = key t.working ++ "/" ++ path := by
  rw [relative?] at below
  split at below
  · next begins =>
    obtain ⟨rest, whole⟩ := String.startsWith_string_iff.1 begins
    have path_eq : path.toList = rest := by
      rw [← Option.some.inj below, String.toList_ofList, ← whole, ← String.length_toList,
        List.drop_left]
    apply String.toList_inj.1
    rw [String.toList_append, path_eq, whole]
  · cases below

/-- Below the working directory, nothing has changed but the files that were written. -/
theorem Takes.mem_of_mem_changedSince {files : List (String × String)} (h : Takes files t t')
    {path text : String} (changed : (path, text) ∈ t'.changedSince t) :
    (key t.working ++ "/" ++ path, text) ∈ files := by
  rw [changedSince] at changed
  obtain ⟨⟨k, e⟩, entry, kept⟩ := List.mem_filterMap.1 changed
  have found : t'.entries.find? k = some e := (Table.mem_entries_iff_find? _ _ _).1 entry
  cases e with
  | directory => cases kept
  | file bytes =>
    cases below : t'.relative? k with
    | none =>
      simp only [below] at kept
      cases kept
    | some rest =>
      simp only [below] at kept
      split at kept
      · cases kept
      next other =>
      obtain ⟨read, text?, eq⟩ := Option.map_eq_some_iff.1 kept
      cases eq
      obtain rfl := eq_of_relative? below
      rcases h.written _ bytes found with same | ⟨f, hf, place, rfl⟩
      · exact absurd same other
      · rw [textOf?_toUTF8] at text?
        obtain rfl := Option.some.inj text?
        rw [← h.working, ← place]
        exact hf

end FileTree

end Injector
