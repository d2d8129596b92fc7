import Injector.Number.Shortest

/-!
# Texts of floating-point numbers

Two written forms. The positional form never has an exponent: a whole number is written with all
its digits and `.0`, any other number with its shortest digits, a tie going up. The compact form is
the shortest digits, a tie going to the even one, with a power of ten wherever the point would
stand far outside them; a positive power may have a sign.
-/

namespace Injector

/-- `n` zeros. -/
def zeros (n : Nat) : String := String.ofList (List.replicate n '0')

namespace Decimal

/-- The digits with a point after the first `n` of them. -/
def splitDigits (d : Decimal) (n : Nat) : String :=
  let cs := d.digitText.toList
  String.ofList (cs.take n) ++ "." ++ String.ofList (cs.drop n)

/-- The text without a power of ten: zeros fill the places between the digits and the point. -/
def positional (d : Decimal) : String :=
  if d.exponent ≥ 0 then d.digitText ++ zeros d.exponent.toNat
  else if d.point ≤ 0 then "0." ++ zeros (-d.point).toNat ++ d.digitText
  else d.splitDigits d.point.toNat

/-- The text with a power of ten below `1e-5` and from `1e16` on, and positional between. The sign
of a positive power is `plus`. -/
def compact (plus : String) (d : Decimal) : String :=
  let point := d.point
  if d.exponent ≥ 0 ∧ point ≤ 16 then d.digitText ++ zeros d.exponent.toNat ++ ".0"
  else if -5 < point ∧ point ≤ 16 then d.positional
  else
    let power := (if point > 0 then plus else "") ++ toString (point - 1)
    let whole := if d.digits < 10 then d.digitText else d.splitDigits 1
    whole ++ "e" ++ power

end Decimal

namespace Double

def signText (x : Double) : String := if x.isNegative then "-" else ""

/-- The whole number that `significand * 2 ^ exponent` is, if it is one. -/
def whole? (significand : Nat) (exponent : Int) : Option Nat :=
  let den := twoTo (-exponent).toNat
  if significand % den = 0 then some (significand / den * twoTo exponent.toNat) else none

/-- The positional text of `significand * 2 ^ exponent`. -/
def positional (significand : Nat) (exponent : Int) : String :=
  match whole? significand exponent with
  | some n => toString n ++ ".0"
  | none => (shortest .up significand exponent).positional

/-- The compact text of a finite number, with `plus` as the sign of a positive power of ten; there
is none for the others. -/
def compact? (plus : String) (x : Double) : Option String :=
  match x.magnitude with
  | .finite 0 _ => some (x.signText ++ "0.0")
  | .finite m q => some (x.signText ++ (shortest .toEven m q).compact plus)
  | _ => none

end Double

end Injector
