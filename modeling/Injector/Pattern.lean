import Injector.Error

/-!
# Patterns of identifiers

A pattern is a text with placeholders `*`, no two of them side by side. A placeholder captures at
least one character, and never reaches into a path separator that begins at its capture or later.
Among all ways to match, the first placeholder captures as much as it can, then the second, and
so on.
-/

namespace Injector

/-- A part of a pattern. -/
inductive Segment
  | literal (text : List Char)
  | wildcard
deriving DecidableEq, Repr

def placeholder : Char := '*'

/-- A pattern as its parts, literals and placeholders in turn. -/
structure Pattern where
  segments : List Segment
deriving DecidableEq, Repr

/-! ### Reading and writing -/

/-- The parts of a text: each placeholder, and the characters between placeholders together. -/
def Segment.ofChars : List Char → List Segment
  | [] => []
  | c :: cs =>
    if c = placeholder then .wildcard :: ofChars cs
    else
      match ofChars cs with
      | .literal text :: rest => .literal (c :: text) :: rest
      | rest => .literal [c] :: rest

def Segment.chars : Segment → List Char
  | .literal text => text
  | .wildcard => [placeholder]

def Segment.isWildcard : Segment → Bool
  | .literal _ => false
  | .wildcard => true

def hasAdjacentWildcards : List Segment → Bool
  | .wildcard :: .wildcard :: _ => true
  | _ :: rest => hasAdjacentWildcards rest
  | [] => false

namespace Pattern

def parse (s : String) : Except Error Pattern :=
  let segments := Segment.ofChars s.toList
  if segments.isEmpty then .error (.config .emptyPattern)
  else if hasAdjacentWildcards segments then .error (.config (.adjacentPlaceholders s))
  else .ok ⟨segments⟩

def text (p : Pattern) : String := String.ofList (p.segments.flatMap Segment.chars)

def placeholders (p : Pattern) : Nat := p.segments.countP Segment.isWildcard

end Pattern

/-! ### Matching -/

/-- The lengths from `n` down to one. -/
def lengthsFrom : Nat → List Nat
  | 0 => []
  | n + 1 => (n + 1) :: lengthsFrom n

/-- What the placeholders of some parts capture from some characters, all of which have to match;
longer captures are tried first. -/
def capturesFrom : List Segment → List Char → Option (List (List Char))
  | [], cs => if cs.isEmpty then some [] else none
  | .literal text :: rest, cs => (afterChars? text cs).bind (capturesFrom rest)
  | .wildcard :: rest, cs =>
    (lengthsFrom (separatorIndex cs)).findSome? fun n =>
      (capturesFrom rest (cs.drop n)).map (cs.take n :: ·)

/-- The characters of some parts with captures in the place of their placeholders; there have to
be as many of the ones as of the others. -/
def substituteInto : List Segment → List (List Char) → Option (List Char)
  | [], [] => some []
  | [], _ :: _ => none
  | .literal text :: rest, captures => (substituteInto rest captures).map (text ++ ·)
  | .wildcard :: rest, capture :: captures =>
    (substituteInto rest captures).map (capture ++ ·)
  | .wildcard :: _, [] => none

namespace Pattern

/-- What the placeholders of a pattern capture from a text that matches it. -/
def captures (p : Pattern) (s : String) : Option (List String) :=
  (capturesFrom p.segments s.toList).map (·.map String.ofList)

def isMatch (p : Pattern) (s : String) : Bool := (p.captures s).isSome

def substitute (p : Pattern) (captures : List String) : Option String :=
  (substituteInto p.segments (captures.map String.toList)).map String.ofList

end Pattern

end Injector
