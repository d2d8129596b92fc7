/-!
# Lines and indentation

Texts as lists of lines, and a writer that puts lines at a nesting depth.
-/

namespace Injector

/-! ### Lines -/

/-- The lines of some characters. A line ends at a line feed, with a carriage return before it or
without, and a last line without an end counts if it is not empty. -/
def splitLines : List Char → List (List Char)
  | [] => []
  | '\n' :: cs => [] :: splitLines cs
  | '\r' :: '\n' :: cs => [] :: splitLines cs
  | c :: cs =>
    match splitLines cs with
    | [] => [[c]]
    | line :: rest => (c :: line) :: rest

def textLines (s : String) : List String := (splitLines s.toList).map String.ofList

def oneLevel : String := "    "

/-- A line one level deeper; an empty one stays empty. -/
def indentLine (line : String) : String := if line.isEmpty then line else oneLevel ++ line

def indent (s : String) : String := "\n".intercalate ((textLines s).map indentLine)

/-! ### Writing at a depth -/

/-- A text under construction and the depth of its next line. -/
structure Writer where
  text : String := ""
  /-- How many levels the next line is indented. -/
  depth : Nat := 0
deriving DecidableEq, Repr

namespace Writer

/-- Write a line; an empty one is not indented. -/
def line (w : Writer) (s : String) : Writer :=
  let margin := if s.isEmpty then "" else String.join (List.replicate w.depth oneLevel)
  { w with text := w.text ++ margin ++ s ++ "\n" }

def lines (w : Writer) (s : String) : Writer := (textLines s).foldl line w

def blank (w : Writer) : Writer := w.line ""

def openLine (w : Writer) (s : String) : Writer :=
  { w.line s with depth := w.depth + 1 }

def closeLine (w : Writer) (s : String) : Writer := { w with depth := w.depth - 1 }.line s

def openBlock (w : Writer) (head : String) : Writer := w.openLine (head ++ " \x7b")

def closeBlock (w : Writer) (tail : String) : Writer := w.closeLine ("\x7d" ++ tail)

end Writer

end Injector
