import Injector.Document.Yaml.Token.Name

/-!
# The layout of YAML

How a text falls into tokens. Block collections show only in the columns where lines begin, and a
key shows only when the colon after it is reached, so a place in a text comes with the columns of
the block collections that are open, and with the tokens that may turn out to begin a key. Such a
token is a *candidate*: its colon has to follow on the same line and within 1024 octets, and one
that begins a line of a block mapping has to be a key.
-/

namespace Injector.Yaml

/-- A token that may turn out to begin a key. -/
structure Candidate where
  /-- Whether it has to be one. -/
  isRequired : Bool
  /-- How many tokens come before it. -/
  number : Nat
  index : Nat
  line : Nat
  column : Nat

/-- A place in a text, with all that was found before it. -/
structure Layout where
  cursor : Cursor
  tokens : Array Token := #[]
  /-- The columns right after those of the open block collections, the innermost first. -/
  margins : List Nat := []
  /-- The candidate of the innermost flow collection, or outside of all of them. -/
  candidate : Option Candidate := none
  /-- The candidates around the open flow collections. -/
  outerCandidates : List (Option Candidate) := []
  /-- Whether a key may begin at the place. -/
  keyAllowed : Bool := true

namespace Layout

def inFlow (l : Layout) : Bool := !l.outerCandidates.isEmpty

def margin (l : Layout) : Nat := l.margins.headD 0

/-- The layout with one more token, up to a later place. -/
def push (l : Layout) (t : Token) (c : Cursor) : Layout :=
  { l with tokens := l.tokens.push t, cursor := c }

def allowKey (l : Layout) (keyAllowed : Bool) : Layout := { l with keyAllowed }

/-! ### Block collections -/

/-- Open a block collection in a column, if that is right of those that are open; its token comes
after so many others. -/
def openBlock (l : Layout) (t : Token) (column number : Nat) : Layout :=
  if l.inFlow || column < l.margin then l
  else
    { l with
      margins := (column + 1) :: l.margins
      tokens := l.tokens.insertIdxIfInBounds number t }

/-- Close the block collections whose margin is beyond a column. -/
def closeBlocks (l : Layout) (column : Nat) : Layout :=
  if l.inFlow then l
  else
    let closed := l.margins.takeWhile (column < ·)
    { l with
      margins := l.margins.drop closed.length
      tokens := closed.foldl (fun ts _ => ts.push .blockEnd) l.tokens }

/-- Open a block collection at the place, where a key has to be allowed. -/
def openHere? (l : Layout) (t : Token) : Option Layout :=
  if l.inFlow then some l
  else if l.keyAllowed then some (l.openBlock t l.cursor.column l.tokens.size)
  else none

/-! ### Candidates -/

/-- The layout without a candidate; one that has to be a key is missed. -/
def dropCandidate? (l : Layout) : Option Layout :=
  if l.candidate.any (·.isRequired) then none else some { l with candidate := none }

/-- The layout whose candidate is the token at the place, if a key may begin there. -/
def addCandidate? (l : Layout) : Option Layout :=
  if l.keyAllowed then do
    let l ← l.dropCandidate?
    return { l with
      candidate := some {
        isRequired := !l.inFlow && l.margin = l.cursor.column + 1
        number := l.tokens.size
        index := l.cursor.index
        line := l.cursor.line
        column := l.cursor.column } }
  else some l

/-- A candidate that can still be a key at a place; one that has to be, but cannot, is missed. -/
def stillCandidate? (c : Cursor) : Option Candidate → Option (Option Candidate)
  | none => some none
  | some k =>
    if k.line = c.line ∧ c.index ≤ k.index + 1024 then some (some k)
    else if k.isRequired then none
    else some none

/-- The layout whose candidate is one that can still be a key. Those around the open flow
collections have to wait until these are closed. -/
def refresh? (l : Layout) : Option Layout := do
  return { l with candidate := ← stillCandidate? l.cursor l.candidate }

/-! ### Tokens -/

/-- What comes next after blanks, comments and ends of lines. A tab is a blank only where no key
may begin, and a byte order mark only in front of a line. -/
def skipSpace : (fuel : Nat) → Layout → Layout
  | 0, l => l
  | fuel + 1, l =>
    let c := l.cursor
    let c := if c.column = 0 && c.rest.head?.any (·.toNat = 0xfeff) then c.advance 1 else c
    let isSpace (a : Char) : Bool := a = ' ' || (a = '\t' && (l.inFlow || !l.keyAllowed))
    let c := (c.skipWhile isSpace).skipComment
    if c.rest.head?.any isBreak then
      skipSpace fuel { l with cursor := c.skipBreak, keyAllowed := l.keyAllowed || !l.inFlow }
    else { l with cursor := c }

/-- The layout after a token between documents, which closes every block collection. -/
def between? (l : Layout) (t : Token) (c : Cursor) : Option Layout := do
  return ((← (l.closeBlocks 0).dropCandidate?).allowKey false).push t c

def beginning? (l : Layout) (t : Token) (c : Cursor) (keyAllowed : Bool := false) :
    Option Layout := do
  return ((← l.addCandidate?).allowKey keyAllowed).push t c

def openFlow? (l : Layout) (t : Token) : Option Layout := do
  let l ← l.beginning? t (l.cursor.advance 1) true
  return { l with candidate := none, outerCandidates := l.candidate :: l.outerCandidates }

def closeFlow? (l : Layout) (t : Token) : Option Layout := do
  let l := ((← l.dropCandidate?).allowKey false).push t (l.cursor.advance 1)
  match l.outerCandidates with
  | [] => return l
  | candidate :: outer => return { l with candidate, outerCandidates := outer }

def comma? (l : Layout) : Option Layout := do
  return ((← l.dropCandidate?).allowKey true).push .comma (l.cursor.advance 1)

def entry? (l : Layout) : Option Layout := do
  let l ← (← l.openHere? .blockSequence).dropCandidate?
  return (l.allowKey true).push .entry (l.cursor.advance 1)

def key? (l : Layout) : Option Layout := do
  let l ← (← l.openHere? .blockMapping).dropCandidate?
  return (l.allowKey !l.inFlow).push .key (l.cursor.advance 1)

/-- The layout after the colon of a value. The candidate, if there is one, becomes its key. -/
def value? (l : Layout) : Option Layout := do
  let c := l.cursor.advance 1
  match l.candidate with
  | some k =>
    let tokens := l.tokens.insertIdxIfInBounds k.number .key
    let l := { l with tokens, candidate := none }.openBlock .blockMapping k.column k.number
    return (l.allowKey false).push .value c
  | none => return ((← l.openHere? .blockMapping).allowKey !l.inFlow).push .value c

def block? (l : Layout) (literal : Bool) : Option Layout := do
  let l ← l.dropCandidate?
  let (text, c) ← blockScalar? literal l.margin l.cursor
  return (l.allowKey true).push (.scalar (if literal then .literal else .other) text) c

/-- Whether a text without quotes may begin with a character before some others. -/
def startsPlain (flow : Bool) (a : Char) (rest : List Char) : Bool :=
  if a = '-' then !startsBlank rest
  else if a = '?' || a = ':' then !flow && !startsBlank rest
  else
    !(isBlank a || isBreak a || isFlowIndicator a
      || ['#', '&', '*', '!', '|', '>', '\'', '"', '%', '@', '\x60'].contains a)

/-- The layout after the token that begins with a character. -/
def token? (l : Layout) (a : Char) (rest : List Char) : Option Layout := do
  let c := l.cursor
  let mark := l.inFlow || startsBlank rest
  if a = '%' && c.column = 0 then
    let (t, c) ← directive? c
    l.between? t c
  else if c.atMarker then
    l.between? (if a = '-' then .documentStart else .documentEnd) (c.advance 3)
  else if a = '[' then l.openFlow? .flowSequence
  else if a = '\x7b' then l.openFlow? .flowMapping
  else if a = ']' then l.closeFlow? .flowSequenceEnd
  else if a = '\x7d' then l.closeFlow? .flowMappingEnd
  else if a = ',' then l.comma?
  else if a = '-' && startsBlank rest then l.entry?
  else if a = '?' && mark then l.key?
  else if a = ':' && mark then l.value?
  else if a = '*' then
    let (name, c) ← anchorName? c
    l.beginning? (.again name) c
  else if a = '&' then
    let (name, c) ← anchorName? c
    l.beginning? (.anchor name) c
  else if a = '!' then
    let (t, c) ← tag? l.inFlow c
    l.beginning? t c
  else if (a = '|' || a = '>') && !l.inFlow then l.block? (a = '|')
  else if a = '\'' || a = '"' then
    let (text, c) ← quotedScalar? (a = '\'') c
    l.beginning? (.scalar .other text) c
  else if startsPlain l.inFlow a rest then
    let (text, isBroken, c) ← plainScalar? l.inFlow l.margin c
    l.beginning? (.scalar .plain text) c isBroken
  else none

/-- The tokens from a place on, after those before it. -/
def tokens? : (fuel : Nat) → Layout → Option (List Token)
  | 0, _ => none
  | fuel + 1, l => do
    let l ← (l.skipSpace (l.cursor.size + 1)).refresh?
    match l.cursor.rest with
    | [] => return (← (l.closeBlocks 0).dropCandidate?).tokens.toList
    | a :: rest => tokens? fuel (← (l.closeBlocks (l.cursor.column + 1)).token? a rest)

end Layout

def tokens? (s : String) : Option (List Token) :=
  if s.toList.all isAllowed then Layout.tokens? (s.length + 1) { cursor := .ofText s } else none

end Injector.Yaml
