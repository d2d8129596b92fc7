import Injector.Document.Yaml.Cursor
import Injector.Document.Yaml.Token
import Injector.Document.Json.Reader

/-!
# Scalars of YAML

The text of a scalar in each of its written forms, from the place where it begins, and the place
after it.
-/

namespace Injector.Yaml

/-! ### Between quotes -/

def letterEscape? : Char → Option Char
  | '0' => some '\x00'
  | 'a' => some '\x07'
  | 'b' => some '\x08'
  | 't' => some '\t'
  | '\t' => some '\t'
  | 'n' => some '\n'
  | 'v' => some '\x0b'
  | 'f' => some '\x0c'
  | 'r' => some '\r'
  | 'e' => some '\x1b'
  | ' ' => some ' '
  | '"' => some '"'
  | '/' => some '/'
  | '\\' => some '\\'
  | 'N' => some (Char.ofNat 0x85)
  | '_' => some (Char.ofNat 0xa0)
  | 'L' => some (Char.ofNat 0x2028)
  | 'P' => some (Char.ofNat 0x2029)
  | _ => none

/-- How many hexadecimal digits follow the letter of an escape by code point. -/
def codeLength? : Char → Option Nat
  | 'x' => some 2
  | 'u' => some 4
  | 'U' => some 8
  | _ => none

def codePoint? (n : Nat) : Option Char := if n.isValidChar then some (Char.ofNat n) else none

/-- The character that the digits at the front count to, so many of them. -/
def codeEscape? (length : Nat) (cs : List Char) : Option Char := do
  let ds ← (cs.take length).mapM Json.hexDigit?
  if ds.length = length then codePoint? (ds.foldl (fun n d => n * 16 + d) 0) else none

/-- A word within quotes, in reverse after the characters in `seen`; whether an escaped end of a
line ends it; and the place after it. -/
def quotedWord? (single : Bool) : (fuel : Nat) → (seen : List Char) → Cursor →
    Option (List Char × Bool × Cursor)
  | 0, _, _ => none
  | fuel + 1, seen, c =>
    match c.rest with
    | [] => some (seen, false, c)
    | a :: rest =>
      if isBlank a || isBreak a then some (seen, false, c)
      else if single then
        if a = '\'' then
          if rest.head? = some '\'' then quotedWord? single fuel ('\'' :: seen) (c.advance 2)
          else some (seen, false, c)
        else quotedWord? single fuel (a :: seen) (c.advance 1)
      else if a = '"' then some (seen, false, c)
      else if a = '\\' then
        match rest with
        | [] => none
        | b :: digits =>
          if isBreak b then some (seen, true, (c.advance 1).skipBreak)
          else
            match codeLength? b with
            | some length => do
              quotedWord? single fuel ((← codeEscape? length digits) :: seen)
                (c.advance (length + 2))
            | none => do quotedWord? single fuel ((← letterEscape? b) :: seen) (c.advance 2)
      else quotedWord? single fuel (a :: seen) (c.advance 1)

/-- The rest of a text within quotes after the characters in `seen`, which are in reverse. -/
def quotedRest? (single : Bool) : (fuel : Nat) → (seen : List Char) → Cursor →
    Option (String × Cursor)
  | 0, _, _ => none
  | fuel + 1, seen, c => do
    if c.atMarker || c.rest.isEmpty then none
    else
      let (seen, broken, c) ← quotedWord? single (c.size + 1) seen c
      if c.rest.head? = some (if single then '\'' else '"') then
        return (String.ofList seen.reverse, c.advance 1)
      else
        let (gap, c) ← takeGap? 0 (c.size + 1) { isBroken := broken } c
        quotedRest? single fuel (gap.text.reverse ++ seen) c

/-- The text within quotes, from the opening one on. -/
def quotedScalar? (single : Bool) (c : Cursor) : Option (String × Cursor) :=
  quotedRest? single (c.size + 1) [] (c.advance 1)

/-! ### Without quotes -/

/-- The characters of a word without quotes; in a flow collection a colon before an indicator is
refused. -/
def plainWord? (flow : Bool) : List Char → Option (List Char)
  | [] => some []
  | c :: cs =>
    if isBlank c || isBreak c || startsValue (c :: cs) || (flow && isFlowIndicator c) then some []
    else if flow && c = ':' && cs.head?.any (fun d => isFlowIndicator d || d = '?') then none
    else (plainWord? flow cs).map (c :: ·)

/-- The rest of a text without quotes, after the characters in `seen`, which are in reverse, and a
gap: all of the text in reverse, whether a line ends after its last word, and the place after it.
Outside of flow collections, a line that begins before column `least` does not belong to it. -/
def plainRest? (flow : Bool) (least : Nat) : (fuel : Nat) → (seen : List Char) → Gap → Cursor →
    Option (List Char × Bool × Cursor)
  | 0, _, _, _ => none
  | fuel + 1, seen, gap, c => do
    if c.atMarker || c.rest.head? = some '#' then return (seen, gap.isBroken, c)
    else
      let word ← plainWord? flow c.rest
      if word.isEmpty then return (seen, gap.isBroken, c)
      else
        let seen := word.reverse ++ (gap.text.reverse ++ seen)
        let (gap, c) ← takeGap? least (c.size + 1) {} (c.advance word.length)
        if !flow && c.column < least then return (seen, gap.isBroken, c)
        else plainRest? flow least fuel seen gap c

/-- The text without quotes, whether a line ends after its last word, and the place after it. -/
def plainScalar? (flow : Bool) (least : Nat) (c : Cursor) : Option (String × Bool × Cursor) := do
  let (seen, isBroken, c) ← plainRest? flow least (c.size + 1) [] {} c
  return (String.ofList seen.reverse, isBroken, c)

/-! ### Blocks of lines -/

/-- What becomes of the ends of lines at the end of a block. -/
inductive Chomping
  /-- The first of them stays. -/
  | clip
  | strip
  | keep
deriving DecidableEq

def chomping? (c : Cursor) : Option (Chomping × Cursor) :=
  match c.rest with
  | '+' :: _ => some (.keep, c.advance 1)
  | '-' :: _ => some (.strip, c.advance 1)
  | _ => none

/-- The indentation that a digit means; there is none for zero. -/
def increment? (c : Cursor) : Option (Option (Nat × Cursor)) :=
  match c.rest with
  | d :: _ =>
    if d = '0' then none
    else if d.isDigit then some (some (d.toNat - '0'.toNat, c.advance 1))
    else some none
  | [] => some none

/-- The signs behind the indicator of a block, in either order; no indentation is zero. -/
def blockHeader? (c : Cursor) : Option (Chomping × Nat × Cursor) :=
  match chomping? c with
  | some (chomping, c) => do
    match ← increment? c with
    | some (n, c) => return (chomping, n, c)
    | none => return (chomping, 0, c)
  | none => do
    match ← increment? c with
    | some (n, c) =>
      match chomping? c with
      | some (chomping, c) => return (chomping, n, c)
      | none => return (.clip, n, c)
    | none => return (.clip, 0, c)

/-- Empty lines before column `indent`, or with any indentation if that is zero: what their ends
stand for, the greatest indentation, and the place on the first other line. A tab in the
indentation is refused. -/
def emptyLines? (indent : Nat) : (fuel : Nat) → (seen : List Char) → (widest : Nat) → Cursor →
    Option (List Char × Nat × Cursor)
  | 0, _, _, _ => none
  | fuel + 1, seen, widest, c =>
    let spaces := (c.rest.takeWhile (· = ' ')).length
    let c := c.advance (if indent = 0 then spaces else min spaces (indent - c.column))
    let widest := max widest c.column
    if (indent = 0 || c.column < indent) && c.rest.head? = some '\t' then none
    else
      match c.rest with
      | [] => some (seen, widest, c)
      | b :: _ =>
        if isBreak b then
          let (text, c) := c.takeBreak
          emptyLines? indent fuel (seen ++ text) widest c
        else some (seen, widest, c)

/-- The lines of a block in a column, after the characters in `seen`, which are in reverse, and
ends of lines: the last one with text in it, and those of the empty lines since. In a folded block
a line feed between two lines that begin with no blank is a space, or nothing if empty lines
follow. -/
def blockLines? (literal : Bool) (indent : Nat) : (fuel : Nat) → (seen : List Char) →
    (last empty : List Char) → (wasBlank : Bool) → Cursor →
    Option (List Char × List Char × List Char × Cursor)
  | 0, _, _, _, _, _ => none
  | fuel + 1, seen, last, empty, wasBlank, c => do
    if c.column ≠ indent || c.rest.isEmpty then return (seen, last, empty, c)
    else
      let leads := c.rest.head?.any isBlank
      let joint :=
        if !literal && last = ['\n'] && !wasBlank && !leads then
          if empty.isEmpty then [' '] else empty
        else last ++ empty
      let line := c.rest.takeWhile (!isBreak ·)
      let (last, c) := (c.advance line.length).takeBreak
      let (empty, _, c) ← emptyLines? indent (c.size + 1) [] 0 c
      blockLines? literal indent fuel (line.reverse ++ (joint.reverse ++ seen)) last empty leads c

/-- The text of a block, from its indicator on; the block around it has its content from column
`margin` on. -/
def blockScalar? (literal : Bool) (margin : Nat) (c : Cursor) : Option (String × Cursor) := do
  let (chomping, increment, c) ← blockHeader? (c.advance 1)
  let c ← c.skipLine?
  let given := if increment = 0 then 0 else (margin - 1) + increment
  let (empty, widest, c) ← emptyLines? given (c.size + 1) [] 0 c
  let indent := if given = 0 then max widest (max margin 1) else given
  let (seen, last, empty, c) ← blockLines? literal indent (c.size + 1) [] [] empty false c
  let tail :=
    match chomping with
    | .strip => []
    | .clip => last
    | .keep => last ++ empty
  return (String.ofList (seen.reverse ++ tail), c)

end Injector.Yaml
