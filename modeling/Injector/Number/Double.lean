/-!
# Floating-point numbers

Binary numbers of 64 bits, held as their bits: a sign, eleven bits of exponent and fifty-two of
fraction. Arithmetic is exact on natural numbers and rounds once at the end, to the nearest
number and on a tie to the one with an even significand.
-/

namespace Injector

def twoTo (k : Nat) : Nat := Nat.pow 2 k

def tenTo (k : Nat) : Nat := Nat.pow 10 k

/-- A binary floating-point number of 64 bits. -/
structure Double where
  /-- Sign, exponent and fraction, from the highest bit down. -/
  bits : UInt64
deriving DecidableEq, Repr

namespace Double

/-! ### The parts of a number -/

/-- What the bits of a number stand for, its sign apart. -/
inductive Magnitude
  | nan
  /-- Beyond all finite numbers. -/
  | infinite
  /-- The number `significand * 2 ^ exponent`. -/
  | finite (significand : Nat) (exponent : Int)
deriving DecidableEq, Repr

def isNegative (x : Double) : Bool := x.bits.toNat ≥ twoTo 63

def unsignedBits (x : Double) : Nat := x.bits.toNat % twoTo 63

def magnitude (x : Double) : Magnitude :=
  let exponent : Nat := x.unsignedBits / twoTo 52
  let fraction := x.unsignedBits % twoTo 52
  if exponent = 2047 then
    if fraction = 0 then .infinite else .nan
  else if exponent = 0 then .finite fraction (-1074)
  else .finite (fraction + twoTo 52) ((exponent : Int) - 1075)

/-- Whether the number is zero, of either sign. -/
def isZero (x : Double) : Bool := x.unsignedBits = 0

/-- Whether the number is neither infinite nor the value that is no number. -/
def isFinite (x : Double) : Bool :=
  match x.magnitude with
  | .finite .. => true
  | _ => false

def ofSigned (negative : Bool) (unsigned : Nat) : Double :=
  ⟨UInt64.ofNat (if negative then twoTo 63 + unsigned else unsigned)⟩

def infiniteBits : Nat := 2047 * twoTo 52

def infinity (negative : Bool) : Double := ofSigned negative infiniteBits

def nan : Double := ofSigned false (infiniteBits + twoTo 51)

def zero (negative : Bool) : Double := ofSigned negative 0

def negate (x : Double) : Double := ofSigned (!x.isNegative) x.unsignedBits

/-! ### Rounding -/

/-- The quotient rounded to the nearest natural number, a half to the even neighbour. -/
def divideToEven (num den : Nat) : Nat :=
  let q := num / den
  let r := num % den
  if 2 * r > den ∨ (2 * r = den ∧ q % 2 = 1) then q + 1 else q

/-- The greatest `k` with `2 ^ k ≤ num / den`, for a positive quotient. -/
def log2Ratio (num den : Nat) : Int :=
  let k : Int := (num.log2 : Int) - (den.log2 : Int)
  if num * twoTo (-k).toNat ≥ den * twoTo k.toNat then k else k - 1

/-- The number of given sign nearest to the quotient of two natural numbers. Adding the rounded
significand to the exponent lets a carry out of the significand step the exponent. -/
def ofRatio (negative : Bool) (num den : Nat) : Double :=
  if num = 0 then zero negative
  else
    let exponent := max (log2Ratio num den - 52) (-1074)
    let significand := divideToEven (num * twoTo (-exponent).toNat) (den * twoTo exponent.toNat)
    let unsigned := (exponent + 1074).toNat * twoTo 52 + significand
    ofSigned negative (min unsigned infiniteBits)

/-- A finite number as a quotient of natural numbers, its sign apart. -/
def toRatio (x : Double) : Nat × Nat :=
  match x.magnitude with
  | .finite m q => (m * twoTo q.toNat, twoTo (-q).toNat)
  | _ => (0, 1)

/-- The natural number nearest to `n` that is a floating-point number. -/
def ofNat (n : Nat) : Double := ofRatio false n 1

/-- The product of finite numbers, the sign that of the first. -/
def scaleUp (x y : Double) : Double :=
  let (a, b) := x.toRatio
  let (c, d) := y.toRatio
  ofRatio x.isNegative (a * c) (b * d)

/-- The quotient of finite numbers, the sign that of the first; the second is not zero. -/
def scaleDown (x y : Double) : Double :=
  let (a, b) := x.toRatio
  let (c, d) := y.toRatio
  ofRatio x.isNegative (a * d) (b * c)

/-! ### Decimal numbers -/

/-- How many decimal digits `n` has. -/
def digitCount (n : Nat) : Nat := (Nat.toDigits 10 n).length

/-- The number nearest to `digits * 10 ^ exponent`, of given sign. Far beyond either end of the
range the exponent alone decides. -/
def ofDecimal (negative : Bool) (digits : Nat) (exponent : Int) : Double :=
  let top : Int := digitCount digits + exponent
  if digits = 0 ∨ top < -400 then zero negative
  else if top > 400 then infinity negative
  else ofRatio negative (digits * tenTo exponent.toNat) (tenTo (-exponent).toNat)

end Double

end Injector
