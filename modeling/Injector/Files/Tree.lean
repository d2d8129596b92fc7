import Injector.Error
import Injector.Files.Path
import Injector.Table

/-!
# File trees

The files and directories below a root, as a value, and what reading, writing and making
directories do to it. Relative paths start from a working directory.
-/

namespace Injector

/-- What is at a place of a file tree. -/
inductive FileEntry
  | directory
  | file (bytes : List UInt8)
deriving DecidableEq

def textOf? (bytes : List UInt8) : Option String := String.fromUTF8? ⟨bytes.toArray⟩

/-- A place as the names that lead there from the root, the last one first. -/
abbrev Location := List String

/-- Files and directories. -/
structure FileTree where
  /-- What there is, by the path from the root. -/
  entries : Table FileEntry
  working : Location

namespace FileTree

/-! ### Places -/

def key (at_ : Location) : String := "/".intercalate at_.reverse

def empty : FileTree := ⟨Table.empty.insert "work" .directory, ["work"]⟩

instance : Inhabited FileTree := ⟨empty⟩

def find? (t : FileTree) (at_ : Location) : Option FileEntry :=
  if at_.isEmpty then some .directory else t.entries.find? (key at_)

def put (t : FileTree) (at_ : Location) (e : FileEntry) : FileTree :=
  { t with entries := t.entries.insert (key at_) e }

def step (at_ : Location) (name : String) : Location :=
  if name = "." then at_ else if name = ".." then at_.tail else name :: at_

/-- The place that some names lead to; every name but the last has to be that of a directory. -/
def follow (t : FileTree) (at_ : Location) : List String → Except FileFault Location
  | [] => .ok at_
  | name :: rest =>
    match t.find? at_ with
    | some .directory => t.follow (step at_ name) rest
    | some (.file _) => .error .notDirectory
    | none => .error .missing

def start (t : FileTree) (path : String) : Location :=
  if Path.isAbsolute path then [] else t.working

def locate (t : FileTree) (path : String) : Except FileFault Location :=
  if path.isEmpty then .error .missing else t.follow (t.start path) (Path.names path)

/-! ### Reading and writing -/

def read (t : FileTree) (path : String) : Except FileFault (List UInt8) := do
  match t.find? (← t.locate path) with
  | some (.file bytes) => if Path.endsWithSlash path then throw .notDirectory else return bytes
  | some .directory => throw .isDirectory
  | none => throw .missing

def write (t : FileTree) (path : String) (bytes : List UInt8) : Except FileFault FileTree := do
  let at_ ← t.locate path
  match t.find? at_, Path.endsWithSlash path with
  | some .directory, _ | _, true => throw .isDirectory
  | _, false => return t.put at_ (.file bytes)

/-- Make the directories that some names lead through, where there are none. -/
def makeAlong (t : FileTree) (at_ : Location) : List String → Except FileFault FileTree
  | [] => .ok t
  | name :: rest =>
    let at_ := step at_ name
    match t.find? at_ with
    | some .directory => t.makeAlong at_ rest
    | some (.file _) => .error (if rest.isEmpty then .occupied else .notDirectory)
    | none => (t.put at_ .directory).makeAlong at_ rest

/-- Make a directory and those that it lies in, where there are none. -/
def makeDirectories (t : FileTree) (path : String) : Except FileFault FileTree :=
  t.makeAlong (t.start path) (Path.names path)

/-! ### Comparing -/

/-- The path from the working directory, of what lies below it. -/
def relative? (t : FileTree) (key : String) : Option String :=
  let front := FileTree.key t.working ++ "/"
  if key.startsWith front then some (String.ofList (key.toList.drop front.length)) else none

/-- The files below the working directory that an earlier tree had not, or had otherwise, with
their contents as text. -/
def changedSince (t earlier : FileTree) : List (String × String) :=
  t.entries.entries.filterMap fun e =>
    match e.2, t.relative? e.1 with
    | .file bytes, some path =>
      if earlier.entries.find? e.1 = some e.2 then none
      else (textOf? bytes).map (path, ·)
    | _, _ => none

end FileTree

end Injector
