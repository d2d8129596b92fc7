import Injector.Identifier

/-!
# Arguments of the command line

A command with its options. Options for all commands may stand before the command or after it; an
option may be given once on each side, and the one after the command counts.
-/

namespace Injector.CommandLine

/-- How a plan is printed. -/
inductive PlanFormat
  | table
  | json
deriving DecidableEq, Repr

/-- What is to be done. -/
inductive Command
  | compile (directory : String) (entry : Option Identifier) (runtime : Bool)
  | plan (format : PlanFormat)
  | inspect (entry : Option Identifier) (yaml : Bool)
deriving DecidableEq, Repr

/-- The arguments. -/
structure Arguments where
  command : Command
  config : String := "ironwire.yaml"
  metadata : String := "ironwire.metadata.yaml"
  jsonLogs : Bool := false
deriving DecidableEq, Repr

/-! ### Options -/

/-- What may be written for the value of an option. -/
inductive ValueKind
  | none
  | text
  /-- A path, which is not empty. -/
  | path
  | word (words : List String)
deriving DecidableEq, Repr

/-- An option. -/
structure OptionSpec where
  name : String
  letter : Option Char := .none
  value : ValueKind
deriving DecidableEq, Repr

def commonOptions : List OptionSpec :=
  [{ name := "config", value := .path }, { name := "metadata", value := .path },
    { name := "json-logs", value := .none }]

def commandOptions : List (String × List OptionSpec) :=
  [("compile", [{ name := "out-dir", letter := some 'o', value := .path },
      { name := "entry", value := .text }, { name := "runtime", value := .none }]),
    ("plan", [{ name := "format", value := .word ["table", "json"] }]),
    ("inspect", [{ name := "entry", value := .text }, { name := "yaml", value := .none }])]

def ValueKind.accepts : ValueKind → String → Bool
  | .none, _ => false
  | .text, _ => true
  | .path, s => !s.isEmpty
  | .word words, s => s ∈ words

/-- An option with the value given for it; that of an option without one is empty. -/
abbrev Given := List (String × String)

/-- An argument by its form. -/
inductive Form
  /-- A word that is no option. -/
  | word
  /-- Two dashes alone, after which no option is looked for. -/
  | dashes
  /-- An option by its name, with the value after an equals sign. -/
  | long (name : String) (value : Option String)
  /-- An option by its letter, with the value that follows at once. -/
  | short (letter : Char) (value : Option String)
deriving DecidableEq, Repr

/-- The text before the first equals sign, and the one after it. -/
def splitEquals : List Char → List Char × Option (List Char)
  | [] => ([], .none)
  | '=' :: cs => ([], some cs)
  | c :: cs => ((c :: (splitEquals cs).1), (splitEquals cs).2)

def Form.of (arg : String) : Form :=
  match arg.toList with
  | ['-', '-'] => .dashes
  | '-' :: '-' :: cs =>
    .long (String.ofList (splitEquals cs).1) ((splitEquals cs).2.map String.ofList)
  | '-' :: c :: '=' :: cs => .short c (some (String.ofList cs))
  | ['-', c] => .short c .none
  | '-' :: c :: cs => .short c (some (String.ofList cs))
  | _ => .word

/-- The option that is meant by a form, with the value that is part of it. -/
def findOption (options : List OptionSpec) : Form → Option (OptionSpec × Option String)
  | .long name value => (options.find? (·.name = name)).map (·, value)
  | .short letter value => (options.find? (·.letter = some letter)).map (·, value)
  | _ => .none

def isValueOf (o : OptionSpec) (s : String) : Bool := Form.of s = .word && o.value.accepts s

/-- Read options up to the first argument that is none, which stays with all that follow it. No
option may be given twice, and two dashes end the options. -/
def readOptions (options : List OptionSpec) (given : Given) :
    List String → Option (Given × List String)
  | [] => some (given, [])
  | arg :: rest =>
    if Form.of arg = .word then some (given, arg :: rest)
    else if Form.of arg = .dashes then if rest.isEmpty then some (given, []) else .none
    else
      match findOption options (Form.of arg) with
      | .none => .none
      | some (o, value) =>
        if given.any (·.1 = o.name) then .none
        else
          match value with
          | some v =>
            if o.value.accepts v then readOptions options (given ++ [(o.name, v)]) rest else .none
          | .none =>
            if o.value = .none then readOptions options (given ++ [(o.name, "")]) rest
            else
              match rest with
              | [] => .none
              | v :: rest =>
                if isValueOf o v then readOptions options (given ++ [(o.name, v)]) rest
                else .none

/-! ### Commands -/

def valueOf (given : Given) (name : String) : Option String :=
  (given.find? (·.1 = name)).map (·.2)

def isGiven (given : Given) (name : String) : Bool := (valueOf given name).isSome

def command? (given : Given) : String → Option Command
  | "compile" => some <| .compile ((valueOf given "out-dir").getD "src/generated")
      (valueOf given "entry") (isGiven given "runtime")
  | "plan" => some <| .plan (if valueOf given "format" = some "json" then .json else .table)
  | "inspect" => some <| .inspect (valueOf given "entry") (isGiven given "yaml")
  | _ => .none

/-- The arguments of a command line, or `none` if it is not a proper one. -/
def Arguments.parse? (args : List String) : Option Arguments := do
  let (before, rest) ← readOptions commonOptions [] args
  match rest with
  | [] => .none
  | name :: rest =>
    let own ← (commandOptions.find? (·.1 = name)).map (·.2)
    let (after, rest) ← readOptions (commonOptions ++ own) [] rest
    if !rest.isEmpty then .none
    else
      let given := after ++ before
      return {
        command := ← command? after name
        config := (valueOf given "config").getD "ironwire.yaml"
        metadata := (valueOf given "metadata").getD "ironwire.metadata.yaml"
        jsonLogs := isGiven given "json-logs" }

end Injector.CommandLine
