import Injector.Document.Json.Reader

/-!
# Plain scalars of YAML

What a scalar without quotes stands for: no value, a truth value, a whole number in one of four
bases, a floating-point number, or else itself.
-/

namespace Injector.Yaml

/-! ### Whole numbers -/

/-- The number of some digits in a base; there has to be one. -/
def digits? (base : Nat) (cs : List Char) : Option Nat := do
  if cs.isEmpty then none
  else
    let ds ← cs.mapM Json.hexDigit?
    if ds.all (· < base) then some (ds.foldl (fun n d => n * base + d) 0) else none

/-- The number of digits after the mark of a base other than ten. -/
def basedDigits? : List Char → Option Nat
  | '0' :: 'x' :: cs => digits? 16 cs
  | '0' :: 'o' :: cs => digits? 8 cs
  | '0' :: 'b' :: cs => digits? 2 cs
  | _ => none

/-- Whether digits begin with a zero that adds nothing; such a scalar is no number. -/
def hasIdleZero : List Char → Bool
  | '0' :: c :: cs => (c :: cs).all Char.isDigit
  | _ => false

def whole? (cs : List Char) : Option Int :=
  let (negative, body) :=
    match cs with
    | '+' :: cs => (false, cs)
    | '-' :: cs => (true, cs)
    | _ => (false, cs)
  let number := (basedDigits? body).or (if hasIdleZero body then none else digits? 10 body)
  number.map fun n => if negative then -(n : Int) else n

/-- A whole number as a scalar. It has 64 bits; one of up to 128 bits is no longer a number of any
other kind either, and so has no value. -/
def wholeScalar? (n : Int) : Option Scalar :=
  if -(twoTo 63 : Int) ≤ n ∧ n < twoTo 64 then some (.integer n)
  else if -(twoTo 127 : Int) ≤ n ∧ n < twoTo 128 then some .unreadable
  else none

/-! ### Floating-point numbers -/

/-- The number of digits with or without a point and a power of ten. -/
def decimal? (negative : Bool) (cs : List Char) : Option Double :=
  let (ds, rest) := Json.takeDigits cs
  let (fs, rest) :=
    match rest with
    | '.' :: rest => Json.takeDigits rest
    | _ => ([], rest)
  let number := (ds ++ fs).foldl (fun n d => n * 10 + d) 0
  if (ds ++ fs).isEmpty then none
  else
    match rest with
    | [] => some (.ofDecimal negative number (-fs.length))
    | c :: rest =>
      if c = 'e' ∨ c = 'E' then
        match Json.exponent? rest with
        | some (down, n, []) =>
          some (.ofDecimal negative number ((if down then -(n : Int) else n) - fs.length))
        | _ => none
      else none

def float? (cs : List Char) : Option Double :=
  let (sign, body) :=
    match cs with
    | '+' :: cs => ('+', cs)
    | '-' :: cs => ('-', cs)
    | _ => (' ', cs)
  match String.ofList body with
  | ".inf" | ".Inf" | ".INF" => some (.infinity (sign = '-'))
  | ".nan" | ".NaN" | ".NAN" => if sign = ' ' then some .nan else none
  | _ => (decimal? (sign = '-') body).filter Double.isFinite

/-! ### Scalars -/

def isNull (s : String) : Bool := s = "~" || s = "null" || s = "Null" || s = "NULL"

def bool? (s : String) : Option Bool :=
  match s with
  | "true" | "True" | "TRUE" => some true
  | "false" | "False" | "FALSE" => some false
  | _ => none

def plainScalar (s : String) : Scalar :=
  if s.isEmpty || isNull s then .null
  else if let some b := bool? s then .bool b
  else
    let cs := s.toList
    let digits := match cs with
      | '+' :: cs => cs
      | '-' :: cs => cs
      | _ => cs
    match (whole? cs).bind wholeScalar? with
    | some n => n
    | none =>
      if hasIdleZero digits then .text s
      else
        match float? cs with
        | some x => .float x
        | none => .text s

end Injector.Yaml
