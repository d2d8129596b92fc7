import Injector.Proofs.Container.Links
import Injector.Proofs.Files.Writing
import Injector.Proofs.Identifier.FactoryName

/-!
# Where spliced files are

A file splices in other files by paths from the directory that it lies in. The files of bodies find
each other in this way. The main file finds them if it lies in the directory that all files are
written to; from elsewhere it looks for them at another place, since their own paths start there.
-/

namespace Injector

open Injector.Path

/-! ### Names of files -/

/-- A name without slashes and with an extension is that of a file. -/
lemma isFileName_artifactFile {name : String} (free : '/' ∉ name.toList) :
    IsFileName (artifactFile name) where
  free := by simp [artifactFile, artifactExtension, free]
  counts := by
    have size := long name
    simp only [isIdle, Bool.or_eq_false_iff, decide_eq_false_iff_not]
    constructor <;> intro eq <;> rw [eq] at size <;> exact absurd size (by decide)
  ne_parent eq := by
    have size := long name
    rw [eq] at size
    exact absurd size (by decide)
where
  /-- It is longer than the names with a meaning of their own. -/
  long (name : String) : 3 ≤ (artifactFile name).length := by
    simp only [artifactFile, artifactExtension, String.length_append]
    have point : ".".length = 1 := rfl
    have ending : "rs".length = 2 := rfl
    omega

lemma isFileName_of_mem_fileNames {d : Definition} {name : String} (h : name ∈ d.fileNames) :
    IsFileName (artifactFile name) := by
  apply isFileName_artifactFile
  intro slash
  have taken := Graph.mem_memberNames_of_mem (.inr h)
  exact absurd (isNameChar_of_mem_memberNames taken slash) (by decide)

/-! ### Where files are looked for -/

/-- The path by which a file in the output directory `out` comes to what it splices in, which it
gives by a path from the directory that it lies in. -/
def includedFrom (out file path : String) : String := join out (join (directoryOf file) path)

namespace Container

/-- A file tree after the files have been written to it, below the directory `out`. -/
structure IsInPlace (config : Config) (c : Container) (files : Artifacts) (out : String)
    (t t' : FileTree) : Prop where
  /-- The files of bodies can be read by their paths. -/
  read : ∀ key text, files.placed.find? key = some text →
    FileTree.system.readText (join out key) t' = (.ok text, t')
  /-- Where a file of a body looks for another one, that one is. -/
  placed : ∀ p ∈ c.files, ∀ path, .splice path ∈ (p.body.code config.directory .placed).pieces →
    ∃ q ∈ c.files, path = q.name ++ ".rs" ∧
      t'.find? (location t.working
        (includedFrom out (config.directory ++ "/" ++ p.name ++ ".rs") path)) =
          some (.file (q.written config.directory).toUTF8.toList)
  /-- So it is with the main file, if the directory of the files is the same from where that lies. -/
  main : location t.working (includedFrom out config.output.containerFile (config.directory ++ "/")) =
      location t.working (join out (config.directory ++ "/")) →
    ∀ f ∈ c.factories, ∀ path, .splice path ∈ (f.body.code config.directory .main).pieces →
      ∃ q ∈ c.files, path = config.directory ++ "/" ++ q.name ++ ".rs" ∧
        t'.find? (location t.working (includedFrom out files.mainFile path)) =
          some (.file (q.written config.directory).toUTF8.toList)
  /-- Nothing else has changed below the working directory. -/
  changed : ∀ path text, (path, text) ∈ t'.changedSince t → ∃ f ∈ files.files, f.2 = text ∧
    FileTree.key (location t.working (join out f.1)) = FileTree.key t.working ++ "/" ++ path

/-- Which files are found where they are spliced in. -/
structure IncludesExactly (config : Config) (c : Container) (files : Artifacts) : Prop where
  /-- The files of bodies always find each other. -/
  placed : ∀ p ∈ c.files, ∀ path,
    .splice path ∈ (p.body.code config.directory .placed).pieces → ∃ key ∈ files.placed.keys,
      ∀ working out, location working
          (includedFrom out (config.directory ++ "/" ++ p.name ++ ".rs") path) =
        location working (join out key)
  /-- The main file finds them if it splices in none, or if the directory of the files is the same
  from where it lies and from where all files are written to. -/
  main : ∀ working out,
    (∀ f ∈ c.factories, ∀ path, .splice path ∈ (f.body.code config.directory .main).pieces →
      ∃ key ∈ files.placed.keys, location working (includedFrom out files.mainFile path) =
        location working (join out key)) ↔
    (∀ f ∈ c.factories, f.body.splices = []) ∨
      location working (includedFrom out config.output.containerFile (config.directory ++ "/")) =
        location working (join out (config.directory ++ "/"))
  /-- If the directory of the files is relative, their paths are, unless it is empty. -/
  absolute : isAbsolute config.files.directory = false →
    ((∃ key ∈ files.placed.keys, isAbsolute key) ↔
      config.files.directory = "" ∧ c.files ≠ [])
  /-- When the files are written below a directory, they are in place there. -/
  inPlace : ∀ out t t' paths, FileTree.system.writeArtifacts files out t = (.ok paths, t') →
    c.IsInPlace config files out t t'

end Container

lemma location_includedFrom (working : Location) (out file path : String) :
    location working (includedFrom out file path) =
      location (location (location working out) (directoryOf file)) path := by
  rw [includedFrom, location_join, location_join]

section Container

variable {g : Graph} {config : Config} {c : Container} (built : g.container config = .ok c)
include built

lemma isFileName_of_mem_files {p : PlacedBody} (hp : p ∈ c.files) :
    IsFileName (artifactFile p.name) := by
  have named : p.name ∈ c.files.map (·.name) := List.mem_map_of_mem hp
  rw [map_name_files built] at named
  obtain ⟨d, -, hn⟩ := List.mem_flatMap.1 named
  exact isFileName_of_mem_fileNames hn

/-- Files lie in the directory of the files, by their names. -/
lemma location_placedPath {p : PlacedBody} (hp : p ∈ c.files) (working : Location)
    (directory : String) : location working (placedPath directory p.name) =
      artifactFile p.name :: location working (directory ++ "/") :=
  (isFileName_of_mem_files built hp).location_slash working directory

/-- The neighbour of a file is in the same directory. -/
lemma location_includedFrom_placed {p q : PlacedBody} (hp : p ∈ c.files) (hq : q ∈ c.files)
    (directory : String) (working : Location) (out : String) :
    location working (includedFrom out (placedPath directory p.name) (artifactFile q.name)) =
      location working (join out (placedPath directory q.name)) := by
  have lies : location (location working out) (directoryOf (placedPath directory p.name)) =
      location (location working out) (directory ++ "/") :=
    location_directoryOf (isFileName_of_mem_files built hp) _ directory
  rw [location_includedFrom, lies, (isFileName_of_mem_files built hq).location_eq, location_join,
    location_placedPath built hq]

/-- If the main file finds the directory of the files, it finds the files. -/
lemma location_main_placed {p : PlacedBody} (hp : p ∈ c.files) {working : Location} {out : String}
    (same : location working (includedFrom out config.output.containerFile
      (config.directory ++ "/")) = location working (join out (config.directory ++ "/"))) :
    location working (includedFrom out config.output.containerFile
      (placedPath config.directory p.name)) =
        location working (join out (placedPath config.directory p.name)) := by
  rw [location_includedFrom, location_join] at same ⊢
  rw [location_placedPath built hp, location_placedPath built hp, same]

/-- The main file finds the files if and only if it finds their directory. -/
lemma found_iff (linked : c.IsLinked config (c.artifacts config)) (working : Location)
    (out : String) :
    (∀ f ∈ c.factories, ∀ path, .splice path ∈ (f.body.code config.directory .main).pieces →
      ∃ key ∈ (c.artifacts config).placed.keys,
        location working (includedFrom out (c.artifacts config).mainFile path) =
          location working (join out key)) ↔
    (∀ f ∈ c.factories, f.body.splices = []) ∨
      location working (includedFrom out config.output.containerFile (config.directory ++ "/")) =
        location working (join out (config.directory ++ "/")) := by
  have places : ∀ p ∈ c.files,
      location working (includedFrom out config.output.containerFile
        (placedPath config.directory p.name)) = artifactFile p.name ::
          location working (includedFrom out config.output.containerFile
            (config.directory ++ "/")) ∧
      location working (join out (placedPath config.directory p.name)) = artifactFile p.name ::
        location working (join out (config.directory ++ "/")) := by
    intro p hp
    simp only [location_includedFrom, location_join, location_placedPath built hp, and_self]
  constructor
  · intro found
    by_cases none : ∀ f ∈ c.factories, f.body.splices = []
    · exact .inl none
    right
    push Not at none
    obtain ⟨f, hf, spliced⟩ := none
    obtain ⟨name, hn⟩ := List.exists_mem_of_ne_nil _ spliced
    have piece : .splice (Site.main.lead config.directory ++ name ++ ".rs") ∈
        (f.body.code config.directory .main).pieces := Body.mem_pieces_splice.2 ⟨name, hn, rfl⟩
    obtain ⟨key, hkey, same⟩ := found f hf _ piece
    obtain ⟨p, hp, path, -⟩ := linked.mainSplices f hf _ piece
    obtain ⟨q, hq, rfl⟩ := Container.mem_keys_artifacts.1 hkey
    rw [path, ← placedPath_eq] at same
    exact (List.cons.inj ((places p hp).1.symm.trans (same.trans (places q hq).2))).2
  · rintro (none | same) f hf path piece
    · obtain ⟨name, hn, -⟩ := Body.mem_pieces_splice.1 piece
      rw [none f hf] at hn
      cases hn
    · obtain ⟨p, hp, rfl, -⟩ := linked.mainSplices f hf path piece
      refine ⟨_, Container.mem_keys_artifacts.2 ⟨p, hp, rfl⟩, ?_⟩
      rw [← placedPath_eq]
      exact location_main_placed built hp same

/-! ### Files in place -/

/-- No two files of bodies are written to one place. -/
lemma destination_ne {p q : PlacedBody} (hp : p ∈ c.files) (hq : q ∈ c.files)
    (apart : placedPath config.directory p.name ≠ placedPath config.directory q.name)
    (working : Location) (out s s' : String) :
    (FileTree.destination working out (placedPath config.directory p.name, s)).1 ≠
      (FileTree.destination working out (placedPath config.directory q.name, s')).1 := by
  simp only [FileTree.destination, location_join, location_placedPath built hp,
    location_placedPath built hq]
  intro same
  apply apart
  rw [placedPath, placedPath, FileTree.key_cons_inj same]

section Writing

variable (written : c.IsWritten config (c.artifacts config)) {out : String} {t t' : FileTree}
  {paths : List String}
  (writes : FileTree.system.writeArtifacts (c.artifacts config) out t = (.ok paths, t'))
include written writes

/-- The file of a body can be read when all files are written, since none is written to its place
later. -/
lemma read_of_writeArtifacts {key text : String}
    (listed : (c.artifacts config).placed.find? key = some text) :
    t'.read (join out key) = .ok text.toUTF8.toList := by
  have body : ∀ e ∈ (c.artifacts config).placed.entries,
      ∃ p ∈ c.files, e.1 = placedPath config.directory p.name := by
    intro e he
    obtain ⟨p, hp, path, -⟩ :=
      (written.placed e.1 e.2).1 ((Table.mem_entries_iff_find? _ _ _).1 he)
    exact ⟨p, hp, path.trans (placedPath_eq config.directory p.name).symm⟩
  have entry : (key, text) ∈ (c.artifacts config).placed.entries :=
    (Table.mem_entries_iff_find? _ _ _).2 listed
  have ascending := (c.artifacts config).placed.ascending
  obtain ⟨before, after, entries⟩ := List.append_of_mem entry
  rw [FileSystem.writeArtifacts, Artifacts.files, entries, ← List.cons_append] at writes
  apply FileTree.read_of_placeAll writes
  intro e he
  rw [entries] at ascending body
  have later : key < e.1 :=
    (List.pairwise_cons.1 (List.pairwise_append.1 ascending).2.1).1 e he
  obtain ⟨p, hp, pathOf⟩ := body (key, text) (by simp)
  obtain ⟨q, hq, pathOf'⟩ := body e (by simp [he])
  have apart : placedPath config.directory q.name ≠ placedPath config.directory p.name := by
    rw [← pathOf, ← pathOf']
    exact (String.ne_of_lt later).symm
  have ne := destination_ne built hq hp apart t.working out e.2 text
  rwa [← pathOf, ← pathOf'] at ne

/-- Where a path leads to the file of a body, that is what lies there. -/
lemma find?_of_writeArtifacts {q : PlacedBody} (hq : q ∈ c.files) {path : String}
    (leads : location t.working path =
      location t.working (join out (placedPath config.directory q.name))) :
    t'.find? (location t.working path) =
      some (.file (q.written config.directory).toUTF8.toList) := by
  have listed : (c.artifacts config).placed.find? (placedPath config.directory q.name) =
      some (q.written config.directory) :=
    (written.placed _ _).2 ⟨q, hq, placedPath_eq config.directory q.name, rfl⟩
  have reads := read_of_writeArtifacts built written writes listed
  obtain ⟨takes, -⟩ := FileTree.takes_of_placeAll writes
  rw [leads, ← takes.working]
  exact (FileTree.read_eq_ok_iff.1 reads).2.1

theorem isInPlace_of_writeArtifacts (linked : c.IsLinked config (c.artifacts config)) :
    c.IsInPlace config (c.artifacts config) out t t' := by
  constructor
  case read =>
    intro key text listed
    exact FileTree.readText_of_read (read_of_writeArtifacts built written writes listed)
  case placed =>
    intro p hp path piece
    obtain ⟨q, hq, rfl, -⟩ := linked.placedSplices p hp path piece
    refine ⟨q, hq, rfl, find?_of_writeArtifacts built written writes hq ?_⟩
    rw [← placedPath_eq, ← artifactFile_eq]
    exact location_includedFrom_placed built hp hq config.directory t.working out
  case main =>
    intro same f hf path piece
    obtain ⟨q, hq, rfl, -⟩ := linked.mainSplices f hf path piece
    refine ⟨q, hq, rfl, find?_of_writeArtifacts built written writes hq ?_⟩
    rw [← placedPath_eq]
    exact location_main_placed built hq same
  case changed =>
    intro path text changed
    obtain ⟨takes, -⟩ := FileTree.takes_of_placeAll writes
    obtain ⟨f, hf, eq⟩ := List.mem_map.1 (takes.mem_of_mem_changedSince changed)
    obtain ⟨place, rfl⟩ := Prod.mk.inj eq
    exact ⟨f, hf, rfl, place⟩

end Writing

end Container

/-- A path without slashes at its end begins in the same way, unless nothing is left. -/
lemma isAbsolute_trimSlashes {path : String} (ne : trimSlashes path ≠ "") :
    isAbsolute (trimSlashes path) = isAbsolute path := by
  have front : (trimSlashes path).toList <+: path.toList := by
    rw [trimSlashes, String.toList_ofList]
    exact List.rdropWhile_prefix (· = '/') _
  obtain ⟨rest, whole⟩ := front
  rw [isAbsolute, isAbsolute, ← whole, List.head?_append_of_ne_nil _ (by simpa using ne)]

/-- A relative path has nothing but slashes only if it is empty. -/
lemma trimSlashes_eq_empty_iff {path : String} (relative : isAbsolute path = false) :
    trimSlashes path = "" ↔ path = "" := by
  constructor
  · intro trimmed
    have slashes : ∀ c ∈ path.toList, c = '/' := by
      have none : path.toList.rdropWhile (· = '/') = [] := by
        simpa [trimSlashes, List.rdropWhile] using congrArg String.toList trimmed
      simpa using List.rdropWhile_eq_nil_iff.1 none
    by_contra ne
    obtain ⟨c, cs, eq⟩ := List.exists_cons_of_ne_nil (l := path.toList) (by simpa using ne)
    have first : c = '/' := slashes c (by simp [eq])
    simp [isAbsolute, eq, first] at relative
  · rintro rfl
    rfl

lemma isAbsolute_placedPath (directory name : String) :
    isAbsolute (placedPath directory name) = (directory = "" || isAbsolute directory) := by
  by_cases empty : directory = ""
  · subst empty
    simp [placedPath]
  · rw [placedPath, String.append_assoc, isAbsolute_append empty]
    simp [empty]

/-- Paths of files are relative if their directory is, unless that is empty. -/
lemma exists_isAbsolute_iff {config : Config} {c : Container}
    (relative : isAbsolute config.files.directory = false) :
    (∃ key ∈ (c.artifacts config).placed.keys, isAbsolute key) ↔
      config.files.directory = "" ∧ c.files ≠ [] := by
  have all : ∀ name, isAbsolute (placedPath config.directory name) ↔
      config.files.directory = "" := by
    intro name
    rw [isAbsolute_placedPath, Config.directory, ← trimSlashes_eq_empty_iff relative]
    by_cases empty : trimSlashes config.files.directory = ""
    · simp [empty]
    · simp [empty, isAbsolute_trimSlashes empty, relative]
  simp only [Container.mem_keys_artifacts]
  constructor
  · rintro ⟨key, ⟨p, hp, rfl⟩, absolute⟩
    exact ⟨(all p.name).1 absolute, List.ne_nil_of_mem hp⟩
  · rintro ⟨empty, files⟩
    obtain ⟨p, hp⟩ := List.exists_mem_of_ne_nil _ files
    exact ⟨_, ⟨p, hp, rfl⟩, (all p.name).2 empty⟩

/-- The files of bodies find each other. The main file finds them exactly if it finds their
directory. -/
theorem includesExactly_of_compile {w : Wiring} {entry : Option Identifier} {g : Graph}
    {config : Config} {files : Artifacts} (h : w.resolveFor entry = .ok g)
    (compiles : g.compile config = .ok files) :
    ∃ c, g.container config = .ok c ∧ files = c.artifacts config ∧ c.IsWritten config files ∧
      c.IncludesExactly config files := by
  obtain ⟨c, built, rfl, written, linked⟩ := isLinked_of_compile h compiles
  refine ⟨c, built, rfl, written, ?_⟩
  constructor
  case placed =>
    intro p hp path piece
    obtain ⟨q, hq, rfl, key⟩ := linked.placedSplices p hp path piece
    refine ⟨_, key, fun working out => ?_⟩
    have same := location_includedFrom_placed built hp hq config.directory working out
    rwa [placedPath_eq, placedPath_eq, artifactFile_eq] at same
  case main => exact fun working out => found_iff built linked working out
  case absolute => exact exists_isAbsolute_iff
  case inPlace =>
    intro out t t' paths writes
    exact isInPlace_of_writeArtifacts built written writes linked

open Wiring

/-- A file right in the output directory gives paths from there. -/
lemma includedFrom_of_directoryOf {file : String} (here : directoryOf file = "")
    (out path : String) : includedFrom out file path = join out path := by
  have same : join "" path = path := by
    simp [join]
  rw [includedFrom, here, same]

/-- What files are written to an empty file tree. -/
def Artifacts.writtenOut (files : Artifacts) (out : String) :
    Except Error (List String) × FileTree :=
  FileTree.system.writeArtifacts files out FileTree.empty

/-- The main file of the service finds the files of the service and of the disk. -/
theorem includesExactly_placedWiring :
    ∃ g files c, placedWiring.resolveFor none = .ok g ∧
      g.compile placedWiring.config = .ok files ∧ g.container placedWiring.config = .ok c ∧
      files.placed.keys =
        ["definitions/Disk.rs", "definitions/Service.rs", "definitions/Service__proxy.rs"] ∧
      c.factories.flatMap (·.body.splices) = ["Service", "Service__proxy"] ∧
      c.files.flatMap (·.body.splices) = ["Disk"] ∧
      c.IsWritten placedWiring.config files ∧ c.IncludesExactly placedWiring.config files ∧
      (∀ working out, ∀ f ∈ c.factories, ∀ path,
        .splice path ∈ (f.body.code "definitions" .main).pieces → ∃ key ∈ files.placed.keys,
          location working (includedFrom out files.mainFile path) =
            location working (join out key)) ∧
      ∃ paths t, FileTree.system.writeArtifacts files "out" FileTree.empty = (.ok paths, t) ∧
        c.IsInPlace placedWiring.config files "out" FileTree.empty t := by
  have resolves : placedWiring.passesWithin 40 ["Service"]
      (·.containerPasses placedWiring.config fun c =>
        (c.artifacts placedWiring.config).placed.keys =
          ["definitions/Disk.rs", "definitions/Service.rs", "definitions/Service__proxy.rs"] ∧
        c.factories.flatMap (·.body.splices) = ["Service", "Service__proxy"] ∧
        c.files.flatMap (·.body.splices) = ["Disk"] ∧
        ((c.artifacts placedWiring.config).writtenOut "out").1.isOk) = true := by
    decide +kernel
  obtain ⟨g, hg, passes⟩ := exists_of_passesWithin resolves
  obtain ⟨c, hc, listed⟩ := Graph.exists_of_containerPasses passes
  obtain ⟨keys, main, placed, writes⟩ := of_decide_eq_true listed
  have h : placedWiring.resolveFor none = .ok g := hg
  have compiles := Graph.compile_of_container hc
  obtain ⟨c', hc', -, written, exact⟩ := includesExactly_of_compile h compiles
  cases hc.symm.trans hc'
  refine ⟨g, _, c, h, compiles, hc, keys, main, placed, written, exact, ?_, ?_⟩
  · intro working out
    apply (exact.main working out).2
    right
    rw [includedFrom_of_directoryOf (by decide +kernel)]
  · rcases run : (c.artifacts placedWiring.config).writtenOut "out" with ⟨error | paths, t⟩
    · rw [run] at writes
      cases writes
    · exact ⟨paths, t, run, exact.inPlace "out" FileTree.empty t paths run⟩

/-- If the directory of the files is the empty path, the file of the job has an absolute path. And a
main file in a directory of its own looks for it there, but the file is not there. -/
theorem misses_filedWiring :
    (∃ g files, (filedWiring "" "container.rs").resolveFor none = .ok g ∧
      g.compile (filedWiring "" "container.rs").config = .ok files ∧
      isAbsolute "" = false ∧ files.placed.keys = ["/Job.rs"] ∧ isAbsolute "/Job.rs") ∧
    ∃ g files c, (filedWiring "definitions" "gen/container.rs").resolveFor none = .ok g ∧
      g.compile (filedWiring "definitions" "gen/container.rs").config = .ok files ∧
      g.container (filedWiring "definitions" "gen/container.rs").config = .ok c ∧
      files.mainFile = "gen/container.rs" ∧ files.placed.keys = ["definitions/Job.rs"] ∧
      (∃ f ∈ c.factories,
        .splice "definitions/Job.rs" ∈ (f.body.code "definitions" .main).pieces) ∧
      ∀ key ∈ files.placed.keys, location [] (includedFrom "out" files.mainFile
        "definitions/Job.rs") ≠ location [] (join "out" key) := by
  have passes : ∀ directory containerFile keys, (filedWiring directory containerFile).passesWithin
      40 ["Job"] (·.containerPasses (filedWiring directory containerFile).config fun c =>
        (c.artifacts (filedWiring directory containerFile).config).placed.keys = keys ∧
        ∃ f ∈ c.factories, "Job" ∈ f.body.splices) = true → ∃ g c,
      (filedWiring directory containerFile).resolveFor none = .ok g ∧
      g.container (filedWiring directory containerFile).config = .ok c ∧
      (c.artifacts (filedWiring directory containerFile).config).placed.keys = keys ∧
      ∃ f ∈ c.factories, "Job" ∈ f.body.splices := by
    intro directory containerFile keys resolves
    obtain ⟨g, hg, passes⟩ := exists_of_passesWithin resolves
    obtain ⟨c, hc, listed⟩ := Graph.exists_of_containerPasses passes
    exact ⟨g, c, hg, hc, of_decide_eq_true listed⟩
  constructor
  · obtain ⟨g, c, hg, hc, keys, -⟩ := passes "" "container.rs" ["/Job.rs"] (by decide +kernel)
    exact ⟨g, _, hg, Graph.compile_of_container hc, by decide +kernel, keys, by decide +kernel⟩
  · obtain ⟨g, c, hg, hc, keys, f, hf, spliced⟩ :=
      passes "definitions" "gen/container.rs" ["definitions/Job.rs"] (by decide +kernel)
    refine ⟨g, _, c, hg, Graph.compile_of_container hc, hc, rfl, keys, ⟨f, hf, ?_⟩, ?_⟩
    · exact Body.mem_pieces_splice.2 ⟨"Job", spliced, by decide⟩
    rw [keys]
    intro key hkey
    obtain rfl := List.mem_singleton.1 hkey
    change location [] (includedFrom "out" "gen/container.rs" "definitions/Job.rs") ≠
      location [] (join "out" "definitions/Job.rs")
    decide +kernel

end Injector
