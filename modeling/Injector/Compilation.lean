import Injector.Container.Source
import Injector.Resolution

/-!
# Compilation

From a configuration and a provider to the generated files: the main file, and the files of the
bodies that stand apart, by their paths.
-/

namespace Injector

/-- The generated files. Paths are relative to the directory they are written to. -/
structure Artifacts where
  mainFile : String
  mainText : String
  placed : Table String
deriving DecidableEq, Repr

namespace Artifacts

/-- All files with their contents: the main file, then the others in the order of their paths. -/
def files (a : Artifacts) : List (String × String) := (a.mainFile, a.mainText) :: a.placed.entries

def size (a : Artifacts) : Nat := a.placed.size + 1

end Artifacts

def trimSlashes (path : String) : String :=
  String.ofList (path.toList.reverse.dropWhile (· = '/')).reverse

def Config.directory (c : Config) : String := trimSlashes c.files.directory

def Container.artifacts (config : Config) (c : Container) : Artifacts where
  mainFile := config.output.containerFile
  mainText := c.text config.directory
  placed := .ofList <| c.files.map fun p =>
    (placedPath config.directory p.name, p.text config.directory)

def Graph.container (config : Config) (g : Graph) : Except Error Container :=
  Container.ofGraph (typeName config.container.name) g

def Graph.compile (config : Config) (g : Graph) : Except Error Artifacts :=
  (g.container config).map (Container.artifacts config)

def Wiring.compile (w : Wiring) : Except Error Artifacts := do
  (← w.resolveAll).compile w.config

def Wiring.compileOne (w : Wiring) (id : Identifier) : Except Error Artifacts := do
  (← w.resolveOne id).compile w.config

end Injector
