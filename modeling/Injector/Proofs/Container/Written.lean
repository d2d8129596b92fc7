import Injector.Compilation
import Injector.Proofs.Container.Names
import Injector.Proofs.Container.Text
import Injector.Proofs.Text.Quoted

/-!
# What is written for a container

The generated files have the lines of a container and the code of its bodies, in full. Whatever the
code refers to is what the bodies do, and stands on a line. There is one exception: if there is a
line feed in the path of the directory of the files, the main file has no splice on a line, since it
indents what follows the line feed.
-/

namespace Injector

/-- The bodies that a definition gives rise to. -/
def Emission.bodies (em : Emission) : List Body :=
  em.factories.map (·.body) ++ em.files.map (·.body)

def Piece.isSplice : Piece → Bool
  | splice _ => true
  | _ => false

/-- A file of a body: a line that names the identifier, and the code of the body. -/
def PlacedBody.written (directory : String) (p : PlacedBody) : String :=
  "// @generated by ironwire for `" ++ p.id ++ "`. Do not edit.\n"
    ++ (p.body.code directory .placed).text ++ "\n"

namespace Container

/-- All bodies of a container, those of its methods and those in files. -/
def bodies (c : Container) : List Body := c.factories.map (·.body) ++ c.files.map (·.body)

/-- Files are written for a container. -/
structure IsWritten (config : Config) (c : Container) (files : Artifacts) : Prop where
  /-- The main file has the lines of the container. -/
  main : files.mainText = unlines (c.lines config.directory)
  /-- The other files are those of bodies, with their code. -/
  placed : ∀ path text, files.placed.find? path = some text ↔
    ∃ p ∈ c.files, path = config.directory ++ "/" ++ p.name ++ ".rs" ∧
      text = p.written config.directory
  /-- What bodies call is what is called in their code. -/
  calls : ∀ b ∈ c.bodies, ∀ site name,
    .call name ∈ (b.code config.directory site).pieces ↔ name ∈ b.calls
  /-- What bodies read or fill is what is read or filled in their code. -/
  keeps : ∀ b ∈ c.bodies, ∀ site name,
    .read name ∈ (b.code config.directory site).pieces ∨
      .fill name ∈ (b.code config.directory site).pieces ↔ name ∈ b.keeps
  /-- What bodies splice in is what is spliced in by their code, by the path from where it stands. -/
  splices : ∀ b ∈ c.bodies, ∀ site path,
    .splice path ∈ (b.code config.directory site).pieces ↔
      ∃ name ∈ b.splices, path = site.lead config.directory ++ name ++ ".rs"
  /-- Whatever the code of a method refers to stands on a line of the main file, but for splices if
  there is a line feed in their paths. -/
  mainShown : ∀ f ∈ c.factories, ∀ p ∈ (f.body.code config.directory .main).pieces,
    p.isPlain = false →
      (IsOnLine p.text files.mainText ↔ (p.isSplice → '\n' ∉ config.directory.toList))
  /-- Whatever the code in a file refers to stands on a line of the file. -/
  placedShown : ∀ q ∈ c.files, ∀ p ∈ (q.body.code config.directory .placed).pieces,
    p.isPlain = false → IsOnLine p.text (q.written config.directory)

end Container

/-! ### Texts of files -/

lemma artifactFile_eq (name : String) : artifactFile name = name ++ ".rs" := by
  simp [artifactFile, artifactExtension, String.append_assoc]

lemma placedPath_eq (directory name : String) :
    placedPath directory name = directory ++ "/" ++ name ++ ".rs" := by
  rw [placedPath, artifactFile_eq, String.append_assoc, String.append_assoc, String.append_assoc]

lemma PlacedBody.text_eq (directory : String) (p : PlacedBody) :
    p.text directory = p.written directory :=
  congrArg (fun code => "// @generated by ironwire for `" ++ p.id ++ "`. Do not edit.\n" ++ code
    ++ "\n") (p.body.text_code directory .placed).symm

/-! ### Lines of code -/

section Lines

variable {directory : String} {site : Site} {b : Body} {p : Piece}
  (free : ∀ name, name ∈ b.calls ∨ name ∈ b.keeps ∨ name ∈ b.splices → '\n' ∉ name.toList)
include free

/-- There is no line feed in what code refers to, if there is none in names and none in the
directory of the files. -/
lemma isWhole_of_mem_pieces (h : p ∈ (b.code directory site).pieces) (refers : p.isPlain = false)
    (lead : p.isSplice → '\n' ∉ (site.lead directory).toList) : IsWhole p.text.toList := by
  apply Piece.isWhole_text refers
  cases p with
  | plain s => cases refers
  | call name =>
    have named := free name (.inl (Body.mem_pieces_call.1 h))
    simp [named]
  | read name =>
    have named := free name (.inr (.inl (Body.mem_pieces_keep.1 (.inl h))))
    simp [named]
  | fill name =>
    have named := free name (.inr (.inl (Body.mem_pieces_keep.1 (.inr h))))
    simp [named]
  | splice path =>
    obtain ⟨name, hn, rfl⟩ := Body.mem_pieces_splice.1 h
    have named := free name (.inr (.inr hn))
    simp [named, lead rfl]
  | activate unit => simp [newline_not_mem_quoted]

end Lines

namespace Container

variable {config : Config} {c : Container}

/-- The lines of a method stand in the main file in a row. -/
lemma IsWritten.exists_of_mem_factories {files : Artifacts} (written : c.IsWritten config files)
    {f : Factory} (hf : f ∈ c.factories) : ∃ before after,
      files.mainText = before ++ unlines (f.lines config.directory) ++ after := by
  obtain ⟨fs, fs', eq⟩ := List.append_of_mem hf
  refine ⟨unlines (c.openingLines ++ fs.flatMap (Factory.lines config.directory)),
    unlines (fs'.flatMap (Factory.lines config.directory) ++ ["\x7d"]), ?_⟩
  simp only [written.main, lines, eq, List.flatMap_append, List.flatMap_cons, unlines_append,
    String.append_assoc]

/-- What stands in the code of a method stands in the text of the container. -/
lemma isInfix_unlines_lines {directory : String} {f : Factory} (hf : f ∈ c.factories) {s : String}
    (whole : IsWhole s.toList) (h : s.toList <:+: (f.body.code directory .main).text.toList) :
    s.toList <:+: (unlines (c.lines directory)).toList := by
  obtain ⟨line, mem, within⟩ := whole.isOnLine h
  have ne : line ≠ "" := by
    rintro rfl
    exact whole.ne (List.infix_nil.1 within)
  have own : "        " ++ line ∈ f.lines directory := by
    simp only [Factory.lines, List.mem_append, List.mem_map]
    exact .inl (.inr ⟨line, mem, if_neg ne⟩)
  have all : "        " ++ line ∈ c.lines directory := by
    simp only [lines, List.mem_append]
    exact .inl (.inr (List.mem_flatMap.2 ⟨f, hf, own⟩))
  exact (isInfix_append within _).trans (isInfix_unlines all)

/-- The files of a container are written for it, if its files have different names and there is no
line feed in a name that a body refers to. -/
theorem isWritten_artifacts (nodup : (c.files.map (·.name)).Nodup)
    (free : ∀ b ∈ c.bodies, ∀ name,
      name ∈ b.calls ∨ name ∈ b.keeps ∨ name ∈ b.splices → '\n' ∉ name.toList) :
    c.IsWritten config (c.artifacts config) where
  main := c.text_eq config.directory
  placed path text := by
    have found : ∀ p ∈ c.files, (c.artifacts config).placed.find?
        (config.directory ++ "/" ++ p.name ++ ".rs") = some (p.written config.directory) := by
      intro p hp
      rw [← placedPath_eq, ← PlacedBody.text_eq]
      exact find?_ofList (nodup_paths config nodup) (List.mem_map_of_mem hp)
    constructor
    · intro h
      have key : path ∈ (c.artifacts config).placed.keys := by
        rw [Table.mem_keys_iff, Table.contains, h]
        rfl
      obtain ⟨p, hp, rfl⟩ := Container.mem_keys_artifacts.1 key
      rw [placedPath_eq] at h ⊢
      exact ⟨p, hp, rfl, Option.some.inj (h.symm.trans (found p hp))⟩
    · rintro ⟨p, hp, rfl, rfl⟩
      exact found p hp
  calls b _ site name := Body.mem_pieces_call
  keeps b _ site name := Body.mem_pieces_keep
  splices b _ site path := Body.mem_pieces_splice
  mainShown f hf p hp refers := by
    have own := free f.body (List.mem_append_left _ (List.mem_map_of_mem hf))
    constructor
    · intro shown spliced feed
      cases p with
      | splice path =>
        obtain ⟨name, -, rfl⟩ := Body.mem_pieces_splice.1 hp
        exact not_isOnLine (by simp [Site.lead, feed]) shown
      | plain | call | read | fill | activate => cases spliced
    · intro plain
      have whole := isWhole_of_mem_pieces own hp refers (by simpa [Site.lead] using plain)
      rw [show (c.artifacts config).mainText = _ from c.text_eq config.directory]
      exact whole.isOnLine (isInfix_unlines_lines hf whole (Code.isInfix_text whole hp))
  placedShown q hq p hp refers := by
    have own := free q.body (List.mem_append_right _ (List.mem_map_of_mem hq))
    have whole := isWhole_of_mem_pieces own hp refers (by simp [Site.lead])
    apply whole.isOnLine
    show _ <:+: (_ ++ (q.body.code config.directory .placed).text ++ "\n").toList
    rw [String.toList_append, String.toList_append]
    exact ((Code.isInfix_text whole hp).trans (List.suffix_append _ _).isInfix).trans
      (List.prefix_append _ _).isInfix

end Container

end Injector
