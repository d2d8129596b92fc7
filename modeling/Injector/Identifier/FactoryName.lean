import Injector.Identifier

/-!
# Generated names

The names that generated code gives to what it builds for an identifier: the method that builds
the instance, the type of the container, and the file of a body kept apart.
-/

namespace Injector

/-- Whether a character may stand in a generated name: ASCII letters, digits and `_`. -/
def isNameChar (c : Char) : Bool := c.isAlphanum || c == '_'

/-- The characters of a factory name. A separator becomes two underscores. Any other character that
cannot stand in a name becomes one, together with those after it up to the next name character or
colon; `skipping` says that such a run is being passed over. -/
def nameChars (skipping : Bool) : List Char → List Char
  | [] => []
  | ':' :: ':' :: rest => '_' :: '_' :: nameChars false rest
  | c :: cs =>
    if isNameChar c then c :: nameChars false cs
    else if skipping && c != ':' then nameChars true cs
    else '_' :: nameChars true cs

/-- The name of the method that builds an identifier. A name that would begin with a digit gets an
underscore in front. -/
def factoryName (id : Identifier) : String :=
  match nameChars false id.toList with
  | c :: cs => String.ofList (if c.isDigit then '_' :: c :: cs else c :: cs)
  | [] => ""

def firstSegmentChars : List Char → List Char
  | [] => []
  | ':' :: ':' :: _ => []
  | c :: cs => c :: firstSegmentChars cs

/-- The name of the container type: the last segment of its path. A separator reads the same
backwards, so this is the first segment of the path read from its end. -/
def typeName (id : Identifier) : String :=
  String.ofList (firstSegmentChars id.toList.reverse).reverse

def artifactExtension : String := "rs"

def artifactFile (factory : String) : String := factory ++ "." ++ artifactExtension

end Injector
