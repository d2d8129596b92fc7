import Injector.Autoload
import Injector.EntryPoint
import Injector.Hint

/-!
# Wirings

All that the resolution of a graph goes by: a configuration with its entry points expanded and its
hints read, a provider, and whether the graph is for writing a container or for a look-up in one
that exists.
-/

namespace Injector

/-- What a graph is resolved for. -/
inductive Mode
  | compile
  /-- To look something up in a container; nothing goes to files of its own. -/
  | runtime
deriving DecidableEq, Repr, Inhabited

/-- All that a resolution goes by. -/
structure Wiring where
  config : Config
  provider : Provider
  mode : Mode
  entries : EntryPoints
  hints : HintTable

namespace Wiring

/-- The wiring of a configuration; its entry points are expanded before its hints are read. -/
def ofConfig (config : Config) (provider : Provider) (mode : Mode) : Except Error Wiring := do
  let entries ← EntryPoints.ofConfigs provider config.entryPoints
  let hints ← HintTable.ofConfig config
  return ⟨config, provider, mode, entries, hints⟩

/-- Whether what is reached from an entry point goes to files of its own. -/
def placesBelow (w : Wiring) (entry : EntryPoint) : Bool :=
  match w.mode with
  | .compile => entry.isFileBased w.config.files.enabled
  | .runtime => false

end Wiring

end Injector
