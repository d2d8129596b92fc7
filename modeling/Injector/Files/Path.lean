/-!
# Paths

Paths of files as texts, their names parted by slashes. Two slashes in a row mean one. The name `.`
means the directory that it stands in, so that among the parts of a path it counts only in front.
-/

namespace Injector.Path

/-! ### Names -/

def splitSlashes : List Char → List (List Char)
  | [] => [[]]
  | c :: cs =>
    match splitSlashes cs with
    | piece :: rest => if c = '/' then [] :: piece :: rest else (c :: piece) :: rest
    | [] => [[c]]

def pieces (s : String) : List String := (splitSlashes s.toList).map String.ofList

def isIdle (piece : String) : Bool := piece = "" || piece = "."

/-- The names that lead to a file, in order. -/
def names (path : String) : List String := (pieces path).filter (!·.isEmpty)

def isAbsolute (path : String) : Bool := path.toList.head? = some '/'

/-- Whether a path ends with a slash, so that it can only be that of a directory. -/
def endsWithSlash (path : String) : Bool := path.toList.getLast? = some '/'

/-! ### Parts and joins -/

/-- A path from a directory; an absolute one stands for itself. -/
def join (directory path : String) : String :=
  if isAbsolute path then path
  else if directory.isEmpty || endsWithSlash directory then directory ++ path
  else directory ++ "/" ++ path

def dropIdleEnd (l : List String) : List String := (l.reverse.dropWhile isIdle).reverse

/-- What a path begins with: the root, or the name `.`, or neither. -/
def anchor (path : String) : String :=
  if isAbsolute path then "/"
  else if (pieces path).head? = some "." then "."
  else ""

/-- The pieces after the anchor, without idle ones at the end. -/
def body (path : String) : List String :=
  dropIdleEnd (pieces (String.ofList (path.toList.drop (anchor path).length)))

/-- The path of the directory that a path lies in; the root and the empty path have none. -/
def parent? (path : String) : Option String :=
  if (body path).isEmpty then
    if anchor path = "." then some "" else none
  else some (anchor path ++ "/".intercalate (dropIdleEnd (body path).dropLast))

def fileName? (path : String) : Option String :=
  match (body path).getLast? with
  | some name => if name = ".." then none else some name
  | none => none

/-- What follows the last point of the last name. A point at the front of the name does not
count. -/
def extension? (path : String) : Option String :=
  match fileName? path with
  | none => none
  | some name =>
    let tail := name.toList.reverse.takeWhile (· ≠ '.')
    let front := name.toList.take (name.length - tail.length - 1)
    if tail.length < name.length && !front.isEmpty then some (String.ofList tail.reverse) else none

/-- Whether a path has an extension, be its letters large or small. -/
def hasExtension (path extension : String) : Bool :=
  match extension? path with
  | some e => e.toList.map Char.toLower = extension.toList.map Char.toLower
  | none => false

end Injector.Path
