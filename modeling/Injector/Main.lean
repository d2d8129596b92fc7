import Injector.CommandLine

/-!
# The command

The program itself: the system's files, the arguments, and what is printed where.
-/

namespace Injector.CommandLine

/-- Why an access to a file failed, from what the system reports. -/
def faultOf (e : IO.Error) : FileFault :=
  match e with
  | .noFileOrDirectory .. | .noSuchThing .. => .missing
  | .alreadyExists .. => .occupied
  | .inappropriateType _ code _ =>
    if code = 21 then .isDirectory else .notDirectory
  | e => .reported (toString e)

/-- An access to a file, its failure as a result. -/
def attempt {α : Type} (work : IO α) : IO (Except FileFault α) := do
  match ← work.toBaseIO with
  | .ok a => return .ok a
  | .error e => return .error (faultOf e)

def systemFiles : FileSystem IO where
  read path := attempt (ByteArray.toList <$> IO.FS.readBinFile path)
  makeDirectories path := attempt (if path.isEmpty then pure () else IO.FS.createDirAll path)
  write path contents := attempt (IO.FS.writeFile path contents)

def Failure.text (f : Failure) : String :=
  match f.context with
  | none => "Error: " ++ f.error.message
  | some context => "Error: " ++ context ++ "\n\nCaused by:\n    " ++ f.error.message

end Injector.CommandLine

open Injector.CommandLine in
def main (args : List String) : IO UInt32 := do
  match Arguments.parse? args with
  | none =>
    IO.eprintln "Usage: iwc [OPTIONS] <compile|plan|inspect>"
    return 2
  | some arguments =>
    match ← (run systemFiles arguments).run with
    | .ok text =>
      IO.print text
      return 0
    | .error failure =>
      IO.eprintln failure.text
      return 1
