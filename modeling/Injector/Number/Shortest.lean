import Injector.Number.Double

/-!
# Shortest decimal forms

The decimal form of a floating-point number with the fewest digits that still reads back as that
number: among the decimal grids of one, two, three and more digits the first is taken on which a
neighbour of the number rounds to it, and of two such neighbours the nearer. Where both are as near,
a rule for ties decides.
-/

namespace Injector

/-- The number `digits * 10 ^ exponent`. -/
structure Decimal where
  digits : Nat
  /-- The power of ten they are scaled by. -/
  exponent : Int
deriving DecidableEq, Repr

/-- Which of two decimals is taken that are as near to a number. -/
inductive Tie
  | up
  /-- The one whose last digit is even. -/
  | toEven
deriving DecidableEq, Repr

namespace Decimal

/-- Drop zeros from the end of the digits, at most `fuel` of them. -/
def trim : Nat → Decimal → Decimal
  | 0, d => d
  | fuel + 1, d =>
    if d.digits ≠ 0 ∧ d.digits % 10 = 0 then trim fuel ⟨d.digits / 10, d.exponent + 1⟩ else d

def digitText (d : Decimal) : String := String.ofList (Nat.toDigits 10 d.digits)

def point (d : Decimal) : Int := Double.digitCount d.digits + d.exponent

end Decimal

namespace Double

/-- A positive number between the two points up to which decimals round to it, all over one
denominator. -/
structure Interval where
  low : Nat
  value : Nat
  high : Nat
  /-- The common denominator. -/
  den : Nat
  /-- Whether the ends round to the number as well. -/
  closed : Bool

/-- What rounds to `significand * 2 ^ exponent`. Below a power of two the numbers stand twice as
close, so the lower end is half as far. -/
def roundingInterval (significand : Nat) (exponent : Int) : Interval :=
  let scale := twoTo (exponent - 2).toNat
  let below := if significand = twoTo 52 ∧ exponent > -1074 then 1 else 2
  { low := (4 * significand - below) * scale
    value := 4 * significand * scale
    high := (4 * significand + 2) * scale
    den := twoTo (2 - exponent).toNat
    closed := significand % 2 = 0 }

/-- Whether `digits * 10 ^ exponent` rounds to the number. -/
def Interval.holds (i : Interval) (d : Decimal) : Bool :=
  let n := d.digits * tenTo d.exponent.toNat * i.den
  let k := tenTo (-d.exponent).toNat
  if i.closed then i.low * k ≤ n ∧ n ≤ i.high * k else i.low * k < n ∧ n < i.high * k

def Interval.point (i : Interval) : Int :=
  let guess := (((i.value.log2 : Int) - (i.den.log2 : Int)) * 30103).fdiv 100000
  let above (p : Int) : Bool := i.value * tenTo (-p).toNat < i.den * tenTo p.toNat
  ([guess - 1, guess, guess + 1].find? above).getD (guess + 2)

/-- The nearest decimal of `count` digits that rounds to the number, if one does. -/
def Interval.candidate (tie : Tie) (i : Interval) (count : Nat) : Option Decimal :=
  let exponent := i.point - count
  let num := i.value * tenTo (-exponent).toNat
  let den := i.den * tenTo exponent.toNat
  let lower : Decimal := ⟨num / den, exponent⟩
  let upper : Decimal := ⟨num / den + 1, exponent⟩
  let takesLower :=
    2 * (num % den) < den || (2 * (num % den) = den && tie = .toEven && lower.digits % 2 = 0)
  match i.holds lower, i.holds upper with
  | true, true => some (if takesLower then lower else upper)
  | true, false => some lower
  | false, true => some upper
  | false, false => none

/-- The shortest decimal form of `significand * 2 ^ exponent`; seventeen digits always do. -/
def shortest (tie : Tie) (significand : Nat) (exponent : Int) : Decimal :=
  if significand = 0 then ⟨0, 0⟩
  else
    let i := roundingInterval significand exponent
    let found := (List.range 17).findSome? fun n => i.candidate tie (n + 1)
    (found.getD ⟨significand, exponent⟩).trim 20

end Double

end Injector
