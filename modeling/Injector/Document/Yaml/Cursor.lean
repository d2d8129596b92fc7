/-!
# Cursors in YAML

The classes of characters that the format tells apart, and a place in a text with its line and
column. Lines end with any of five characters, or with a carriage return and a line feed together.
-/

namespace Injector.Yaml

/-! ### Characters -/

def isAllowed (c : Char) : Bool :=
  let n := c.toNat
  n = 9 || n = 10 || n = 13 || (0x20 ≤ n && n ≤ 0x7e) || n = 0x85 || (0xa0 ≤ n && n ≤ 0xd7ff)
    || (0xe000 ≤ n && n ≤ 0xfffd) || 0x10000 ≤ n

def isBreak (c : Char) : Bool :=
  c = '\n' || c = '\r' || c.toNat = 0x85 || c.toNat = 0x2028 || c.toNat = 0x2029

def isBlank (c : Char) : Bool := c = ' ' || c = '\t'

def isNameChar (c : Char) : Bool := c.isAlphanum || c = '_' || c = '-'

/-- Whether a character parts entries of a flow collection, or begins or ends one. -/
def isFlowIndicator (c : Char) : Bool := c = ',' || c = '[' || c = ']' || c = '\x7b' || c = '\x7d'

/-- Whether the end of a line or of the text comes first. -/
def startsBreak : List Char → Bool
  | [] => true
  | c :: _ => isBreak c

/-- Whether a blank, the end of a line or the end of the text comes first. -/
def startsBlank : List Char → Bool
  | [] => true
  | c :: _ => isBlank c || isBreak c

/-- Whether a colon comes first that parts a key from its value. -/
def startsValue : List Char → Bool
  | ':' :: rest => startsBlank rest
  | _ => false

/-- What an end of a line stands for in a text: three of them are line feeds. -/
def breakText (c : Char) : List Char :=
  if c.toNat = 0x2028 || c.toNat = 0x2029 then [c] else ['\n']

/-! ### Cursors -/

/-- A place in a text. -/
structure Cursor where
  rest : List Char
  size : Nat
  /-- How many octets stand before the place. -/
  index : Nat := 0
  line : Nat := 0
  /-- How many characters stand before the place on its line. -/
  column : Nat := 0

namespace Cursor

def ofText (s : String) : Cursor := { rest := s.toList, size := s.length }

def octets (cs : List Char) : Nat := cs.foldl (fun n a => n + a.utf8Size) 0

/-- The place so many characters further on the same line. -/
def advance (c : Cursor) (n : Nat) : Cursor :=
  { c with
    rest := c.rest.drop n
    index := c.index + octets (c.rest.take n)
    column := c.column + n }

/-- The place after the characters on the line that satisfy `p`. -/
def skipWhile (p : Char → Bool) (c : Cursor) : Cursor := c.advance (c.rest.takeWhile p).length

/-- What the end of a line at the place stands for, and the place after it. -/
def takeBreak (c : Cursor) : List Char × Cursor :=
  match c.rest with
  | '\r' :: '\n' :: rest =>
    (['\n'], { c with rest, index := c.index + 2, line := c.line + 1, column := 0 })
  | b :: rest =>
    if isBreak b then
      (breakText b,
        { c with rest, index := c.index + b.utf8Size, line := c.line + 1, column := 0 })
    else ([], c)
  | [] => ([], c)

def skipBreak (c : Cursor) : Cursor := c.takeBreak.2

/-- Whether a line of dashes or points marks the start or the end of a document here. -/
def atMarker (c : Cursor) : Bool :=
  c.column = 0 && (c.rest.take 3 = ['-', '-', '-'] || c.rest.take 3 = ['.', '.', '.'])
    && startsBlank (c.rest.drop 3)

/-- The place after a comment, if one begins here. -/
def skipComment (c : Cursor) : Cursor :=
  if c.rest.head? = some '#' then c.skipWhile (!isBreak ·) else c

/-- The place on the next line, where only blanks and a comment may come before. -/
def skipLine? (c : Cursor) : Option Cursor :=
  let c := (c.skipWhile isBlank).skipComment
  if startsBreak c.rest then some c.skipBreak else none

end Cursor

/-! ### Gaps -/

/-- What stands between two words of a text: blanks on one line, or ends of lines with blanks
around them. -/
structure Gap where
  /-- The blanks before the first end of a line. -/
  blanks : List Char := []
  isBroken : Bool := false
  /-- What the first end of a line stands for. -/
  first : List Char := []
  others : List Char := []

/-- What a gap stands for. A line feed alone is a space, and before other ends of lines it is
dropped; no other end of a line is. -/
def Gap.text (g : Gap) : List Char :=
  if !g.isBroken then g.blanks
  else if g.first = ['\n'] then if g.others.isEmpty then [' '] else g.others
  else g.first ++ g.others

/-- The gap at a place, after a part of it that has been read. A tab before column `least` of a
later line is refused. -/
def takeGap? (least : Nat) : (fuel : Nat) → Gap → Cursor → Option (Gap × Cursor)
  | 0, _, _ => none
  | fuel + 1, g, c =>
    match c.rest with
    | [] => some (g, c)
    | b :: _ =>
      if isBlank b then
        if g.isBroken then
          if b = '\t' && c.column < least then none else takeGap? least fuel g (c.advance 1)
        else takeGap? least fuel { g with blanks := g.blanks ++ [b] } (c.advance 1)
      else if isBreak b then
        let (text, c) := c.takeBreak
        if g.isBroken then takeGap? least fuel { g with others := g.others ++ text } c
        else takeGap? least fuel { g with isBroken := true, first := text } c
      else some (g, c)

end Injector.Yaml
