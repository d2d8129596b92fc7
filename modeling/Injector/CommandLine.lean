import Injector.CommandLine.Arguments
import Injector.Definition.Encode
import Injector.Document.Json.Printer
import Injector.Document.Yaml.Printer
import Injector.Files
import Injector.Session

/-!
# Commands

What each command prints, for any system of files. A command loads the configuration and then the
metadata; if it fails, it prints nothing.
-/

namespace Injector.CommandLine

/-- Why a command failed, and what it was about to do. -/
structure Failure where
  context : Option String := none
  error : Error
deriving DecidableEq, Repr

variable {m : Type → Type} [Monad m]

/-- A failure of some work, with what it was about to do. -/
def during {α : Type} (context : Option String) (work : ExceptT Error m α) :
    ExceptT Failure m α :=
  ExceptT.mk <| do
    match ← work.run with
    | .ok a => return .ok a
    | .error e => return .error ⟨context, e⟩

/-- A result, or a failure of the command itself. -/
def orFail {α : Type} (r : Except Error α) : ExceptT Failure m α :=
  during none (ExceptT.mk (pure r))

/-- The members of a graph, its definitions by their identifiers. -/
def graphMembers (g : Graph) : List (String × Document) :=
  g.definitions.entries.map fun e => (e.1, e.2.document)

def writtenText (paths : List String) : String :=
  String.join (paths.map fun p => "  wrote " ++ p ++ "\n") ++ "\n  "
    ++ Report.counted paths.length "artifact" "artifacts" ++ "\n"

def load (fs : FileSystem m) (args : Arguments) : ExceptT Failure m Session := do
  let config ← during (some ("cannot load configuration " ++ args.config))
    (fs.loadConfig args.config)
  let metadata ← during (some ("cannot load metadata " ++ args.metadata))
    (fs.loadMetadata args.metadata)
  return { config, provider := metadata.provider }

/-- Do a command in a session, and give what it prints. -/
def execute (fs : FileSystem m) (s : Session) : Command → ExceptT Failure m String
  | .compile directory entry runtime => do
    let artifacts ← orFail
      ((if runtime then { s with mode := .runtime } else s).compile entry)
    return writtenText (← during none (fs.writeArtifacts artifacts directory))
  | .plan .table => do return (← orFail s.plan).text s.config.container.name
  | .plan .json => do return Json.spread (← orFail s.plan).document ++ "\n"
  | .inspect entry yaml => do
    let members := graphMembers (← orFail (s.resolve entry))
    return if yaml then Yaml.members members else Json.spread (.object members) ++ "\n"

/-- Load what a command line names, do its command, and give what it prints. -/
def run (fs : FileSystem m) (args : Arguments) : ExceptT Failure m String := do
  execute fs (← load fs args) args.command

end Injector.CommandLine
