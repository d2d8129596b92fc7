import Injector.Compilation
import Injector.Plan

/-!
# Sessions

A configuration, a provider and a mode, put together step by step, and what can be asked of them.
-/

namespace Injector

/-- What a compilation is put together from. -/
structure Session where
  config : Config
  /-- What is known about types; nothing at first. -/
  provider : Provider := Metadata.provider .empty
  mode : Mode := .compile

namespace Session

/-! ### Putting together -/

def addEntryPoint (s : Session) (id : Identifier) : Session :=
  { s with config.entryPoints := s.config.entryPoints ++ [{ target := .single id }] }

def setHint (s : Session) (id : Identifier) (hint : HintConfig) : Session :=
  { s with config.hints := s.config.hints.insert id hint }

/-- The word for a mode in the description of a session. -/
def modeName : Mode → String
  | .compile => "Compile"
  | .runtime => "Runtime"

def description (s : Session) : String :=
  "ContainerCompiler \x7b container: Identifier(" ++ quoted s.config.container.name
    ++ "), entry_points: " ++ toString s.config.entryPoints.length
    ++ ", mode: " ++ modeName s.mode ++ ", .. \x7d"

/-! ### Asking -/

def wiring (s : Session) : Except Error Wiring := Wiring.ofConfig s.config s.provider s.mode

/-- The graph of all entry points, or of one. -/
def resolve (s : Session) (entry : Option Identifier) : Except Error Graph := do
  (← s.wiring).resolveFor entry

/-- The generated files for all entry points, or for one. -/
def compile (s : Session) (entry : Option Identifier) : Except Error Artifacts := do
  (← s.resolve entry).compile s.config

def plan (s : Session) : Except Error Plan := do return (← s.resolve none).plan

end Session

end Injector
