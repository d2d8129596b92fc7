import Injector.Compilation
import Injector.Config.Decode
import Injector.Files.Tree
import Injector.Metadata.Decode

/-!
# Files of a compilation

Loading configurations and metadata, and writing generated files, for any system of files. A file
with the extension `json` holds JSON, any other holds YAML.
-/

namespace Injector

/-- What a system of files can do. -/
structure FileSystem (m : Type → Type) where
  read : (path : String) → m (Except FileFault (List UInt8))
  /-- Make a directory and those that it lies in, where there are none. -/
  makeDirectories : (path : String) → m (Except FileFault Unit)
  write : (path contents : String) → m (Except FileFault Unit)

/-- Change the state, unless it fails. -/
def changeState {σ : Type} (f : σ → Except FileFault σ) : StateM σ (Except FileFault Unit) :=
  fun s =>
    match f s with
    | .ok s' => (.ok (), s')
    | .error e => (.error e, s)

def FileTree.system : FileSystem (StateM FileTree) where
  read path := do return (← get).read path
  makeDirectories path := changeState (·.makeDirectories path)
  write path contents := changeState (·.write path contents.toUTF8.toList)

namespace FileSystem

variable {m : Type → Type} [Monad m] (fs : FileSystem m)

/-! ### Loading -/

def readText (path : String) : ExceptT Error m String := do
  match ← fs.read path with
  | .error f => throw (.file path f)
  | .ok bytes =>
    match textOf? bytes with
    | some s => return s
    | none => throw (.file path .notText)

/-- What a file holds, read as JSON or as YAML. -/
def load {α : Type} (ofJson ofYaml : String → Except Error α) (path : String) :
    ExceptT Error m α := do
  let s ← fs.readText path
  liftExcept (if Path.hasExtension path "json" then ofJson s else ofYaml s)
where
  /-- A result as one of the system. -/
  liftExcept (r : Except Error α) : ExceptT Error m α := ExceptT.mk (pure r)

def loadConfig (path : String) : ExceptT Error m Config := fs.load Config.ofJson Config.ofYaml path

def loadMetadata (path : String) : ExceptT Error m Metadata :=
  fs.load Metadata.ofJson Metadata.ofYaml path

/-! ### Writing -/

/-- Write a file into a directory that is made if there is none. -/
def place (path contents : String) : ExceptT Error m Unit := do
  if let some parent := Path.parent? path then
    if let .error f ← fs.makeDirectories parent then throw (.file parent f)
  if let .error f ← fs.write path contents then throw (.file path f)

/-- Write files below a directory, and give their paths. -/
def placeAll (directory : String) : List (String × String) → ExceptT Error m (List String)
  | [] => return []
  | (path, contents) :: rest => do
    let path := Path.join directory path
    fs.place path contents
    return path :: (← placeAll directory rest)

/-- Write generated files below a directory, the main file first, and give their paths. -/
def writeArtifacts (a : Artifacts) (directory : String) : ExceptT Error m (List String) :=
  fs.placeAll directory a.files

end FileSystem

end Injector
