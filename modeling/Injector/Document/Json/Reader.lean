import Injector.Document.Node

/-!
# Reading JSON

A text is read to its end or refused. Members keep their order and their repetitions, whole
numbers are told apart from others, and three things are read but left without a value: a number
out of range, a text with half of a surrogate pair, and a list or object nested too deep. They are
refused only where their value is needed.
-/

namespace Injector.Json

/-! ### Numbers -/

def digit? (c : Char) : Option Nat := if c.isDigit then some (c.toNat - '0'.toNat) else none

/-- The digits at the front, and the rest. -/
def takeDigits : List Char → List Nat × List Char
  | [] => ([], [])
  | c :: cs =>
    match digit? c with
    | some d => (d :: (takeDigits cs).1, (takeDigits cs).2)
    | none => ([], c :: cs)

def significandLimit : Nat := twoTo 64 - 1

def exponentLimit : Nat := twoTo 31 - 1

/-- Append digits to a significand while it stays within the limit, and count those appended and
those dropped. -/
def appendDigits (significand : Nat) : List Nat → Nat × Nat × Nat
  | [] => (significand, 0, 0)
  | d :: ds =>
    if significand * 10 + d ≤ significandLimit then
      let (s, kept, dropped) := appendDigits (significand * 10 + d) ds
      (s, kept + 1, dropped)
    else (significand, 0, ds.length + 1)

/-- The significand scaled down by a power of ten, by at most 308 places at a time. -/
def scaledDown (x : Double) (places : Nat) : Double :=
  if places ≤ 308 then x.scaleDown (.ofNat (tenTo places))
  else if x.isZero then x
  else scaledDown (x.scaleDown (.ofNat (tenTo 308))) (places - 308)
termination_by places

/-- The number `significand * 10 ^ exponent`, rounded when the significand becomes a number and
again when it is scaled. Beyond the finite numbers there is no value. -/
def scaled (negative : Bool) (significand : Nat) (exponent : Int) : Scalar :=
  let x := Double.ofNat significand
  let signed (y : Double) : Scalar := .float (if negative then y.negate else y)
  if exponent < 0 then signed (scaledDown x (-exponent).toNat)
  else if exponent ≤ 308 then
    let y := x.scaleUp (.ofNat (tenTo exponent.toNat))
    if y.isFinite then signed y else .unreadable
  else if x.isZero then signed x
  else .unreadable

/-- The power of ten at the front, after its letter; a missing one is refused. -/
def exponent? (cs : List Char) : Option (Bool × Nat × List Char) :=
  let (negative, cs) :=
    match cs with
    | '+' :: cs => (false, cs)
    | '-' :: cs => (true, cs)
    | _ => (false, cs)
  match takeDigits cs with
  | ([], _) => none
  | (ds, rest) => some (negative, ds.foldl (fun n d => n * 10 + d) 0, rest)

/-- A number that is not whole, from its significand, the power of ten so far, and what follows. -/
def withExponent (negative : Bool) (significand : Nat) (power : Int) (cs : List Char) :
    Option (Scalar × List Char) :=
  match cs with
  | c :: rest =>
    if c = 'e' ∨ c = 'E' then do
      let (down, n, rest) ← exponent? rest
      if n ≤ exponentLimit then
        return (scaled negative significand (if down then power - n else power + n), rest)
      else if significand = 0 ∨ down then
        return (.float (.zero negative), rest)
      else return (.unreadable, rest)
    else some (scaled negative significand power, cs)
  | [] => some (scaled negative significand power, [])

/-- A whole number; below the least of 64 bits, and for a negative zero, a floating-point one. -/
def wholeNumber (negative : Bool) (n : Nat) : Scalar :=
  if !negative then .integer n
  else if n = 0 ∨ n > twoTo 63 then .float (Double.ofNat n).negate
  else .integer (-n)

/-- The number after its sign. Digits beyond the greatest significand only count as places. -/
def unsigned? (negative : Bool) (cs : List Char) : Option (Scalar × List Char) := do
  let (ds, rest) := takeDigits cs
  if ds.isEmpty || (ds.head? = some 0 && ds.length > 1) then none
  else
    let (significand, _, dropped) := appendDigits 0 ds
    match rest with
    | '.' :: rest =>
      let (fs, rest) := takeDigits rest
      if fs.isEmpty then none
      else
        let (significand, kept, _) := appendDigits significand fs
        withExponent negative significand ((dropped : Int) - kept) rest
    | c :: _ =>
      if c = 'e' ∨ c = 'E' ∨ dropped ≠ 0 then withExponent negative significand dropped rest
      else some (wholeNumber negative significand, rest)
    | [] =>
      if dropped ≠ 0 then withExponent negative significand dropped rest
      else some (wholeNumber negative significand, rest)

/-! ### Texts -/

def hexDigit? (c : Char) : Option Nat :=
  if c.isDigit then some (c.toNat - '0'.toNat)
  else if 'a' ≤ c ∧ c ≤ 'f' then some (c.toNat - 'a'.toNat + 10)
  else if 'A' ≤ c ∧ c ≤ 'F' then some (c.toNat - 'A'.toNat + 10)
  else none

/-- The number of four hexadecimal digits at the front. -/
def hexUnit? : List Char → Option (Nat × List Char)
  | a :: b :: c :: d :: rest => do
    let n := (((← hexDigit? a) * 16 + (← hexDigit? b)) * 16 + (← hexDigit? c)) * 16
      + (← hexDigit? d)
    return (n, rest)
  | _ => none

def letterEscape? : Char → Option Char
  | '"' => some '"'
  | '\\' => some '\\'
  | '/' => some '/'
  | 'b' => some '\x08'
  | 'f' => some '\x0c'
  | 'n' => some '\n'
  | 'r' => some '\r'
  | 't' => some '\t'
  | _ => none

/-- The character that an escaped unit begins, and what follows. A unit of a surrogate pair needs
its other half; without it there is no character. -/
def unitCharacter (n : Nat) (rest : List Char) : Option Char × List Char :=
  if 0xd800 ≤ n ∧ n < 0xdc00 then
    match rest with
    | '\\' :: 'u' :: rest' =>
      match hexUnit? rest' with
      | some (m, rest'') =>
        if 0xdc00 ≤ m ∧ m < 0xe000 then
          (some (Char.ofNat (0x10000 + (n - 0xd800) * 0x400 + (m - 0xdc00))), rest'')
        else (none, rest)
      | none => (none, rest)
    | _ => (none, rest)
  else if 0xdc00 ≤ n ∧ n < 0xe000 then (none, rest)
  else (some (Char.ofNat n), rest)

/-- The characters up to the closing quote, in reverse, after those in `seen`; `readable` tells
whether all of them are characters. -/
def quotedChars : (fuel : Nat) → (readable : Bool) → (seen : List Char) → List Char →
    Option (Bool × List Char × List Char)
  | 0, _, _, _ => none
  | fuel + 1, readable, seen, cs =>
    match cs with
    | [] => none
    | '"' :: rest => some (readable, seen, rest)
    | '\\' :: 'u' :: rest =>
      match hexUnit? rest with
      | none => none
      | some (n, rest) =>
        match unitCharacter n rest with
        | (some c, rest) => quotedChars fuel readable (c :: seen) rest
        | (none, rest) => quotedChars fuel false seen rest
    | '\\' :: c :: rest =>
      match letterEscape? c with
      | some e => quotedChars fuel readable (e :: seen) rest
      | none => none
    | c :: rest => if c.toNat < 32 then none else quotedChars fuel readable (c :: seen) rest

def text? (cs : List Char) : Option (Scalar × List Char) := do
  let (readable, seen, rest) ← quotedChars (cs.length + 1) true [] cs
  return (if readable then .text (String.ofList seen.reverse) else .unreadable, rest)

/-! ### Values -/

def skipSpace : List Char → List Char
  | [] => []
  | c :: cs => if c = ' ' ∨ c = '\n' ∨ c = '\t' ∨ c = '\r' then skipSpace cs else c :: cs

def afterWord? : (word : List Char) → List Char → Option (List Char)
  | [], cs => some cs
  | w :: ws, c :: cs => if w = c then afterWord? ws cs else none
  | _ :: _, [] => none

/-- The atom that begins with a character, which is none of `[`, `{` and a quote. -/
def atom? (cs : List Char) : Option (Scalar × List Char) :=
  match cs with
  | '-' :: rest => unsigned? true rest
  | 'n' :: _ => (afterWord? ['n', 'u', 'l', 'l'] cs).map (.null, ·)
  | 't' :: _ => (afterWord? ['t', 'r', 'u', 'e'] cs).map (.bool true, ·)
  | 'f' :: _ => (afterWord? ['f', 'a', 'l', 's', 'e'] cs).map (.bool false, ·)
  | _ => unsigned? false cs

def depthLimit : Nat := 127

mutual

def value? : (fuel : Nat) → List Char → Option (Node × List Char)
  | 0, _ => none
  | fuel + 1, cs =>
    match skipSpace cs with
    | '[' :: rest => do
      match skipSpace rest with
      | ']' :: rest => return (.list true [], rest)
      | rest =>
        let (items, rest) ← items? fuel rest
        return (.list true items, rest)
    | '\x7b' :: rest => do
      match skipSpace rest with
      | '\x7d' :: rest => return (.object [], rest)
      | rest =>
        let (members, rest) ← members? fuel rest
        return (.object members, rest)
    | '"' :: rest => do
      let (s, rest) ← text? rest
      return (s.node, rest)
    | rest => do
      let (s, rest) ← atom? rest
      return (s.node, rest)

/-- The items of a list up to its end; there is at least one. -/
def items? : (fuel : Nat) → List Char → Option (List Node × List Char)
  | 0, _ => none
  | fuel + 1, cs => do
    let (n, rest) ← value? fuel cs
    match skipSpace rest with
    | ',' :: rest =>
      let (ns, rest) ← items? fuel rest
      return (n :: ns, rest)
    | ']' :: rest => return ([n], rest)
    | _ => none

/-- The members of an object up to its end; there is at least one. -/
def members? : (fuel : Nat) → List Char → Option (List (Node × Node) × List Char)
  | 0, _ => none
  | fuel + 1, cs => do
    match skipSpace cs with
    | '"' :: rest =>
      let (key, rest) ← text? rest
      match skipSpace rest with
      | ':' :: rest =>
        let (n, rest) ← value? fuel rest
        match skipSpace rest with
        | ',' :: rest =>
          let (ms, rest) ← members? fuel rest
          return ((key.node, n) :: ms, rest)
        | '\x7d' :: rest => return ([(key.node, n)], rest)
        | _ => none
      | _ => none
    | _ => none

end

/-- The value of a text that holds one value and nothing else, of which only so many levels are
readable. -/
def readWithin? (depth : Nat) (s : String) : Option Node :=
  match value? (2 * s.length + 2) s.toList with
  | some (n, rest) => if (skipSpace rest).isEmpty then some (n.limited depth) else none
  | none => none

def read? : String → Option Node := readWithin? depthLimit

end Injector.Json
