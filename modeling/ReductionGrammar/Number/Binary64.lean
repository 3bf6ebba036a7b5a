/-!
# Binary floating-point numbers of 64 bits

A number is kept as its 64 bits, so a NaN keeps its payload and two zeros of different sign
differ. A finite number has the exact magnitude `significand * 2 ^ exponent`; the other way round,
`ofRatio` gives the number nearest to a fraction, with ties to the even significand.
-/

namespace ReductionGrammar

/-- A number in the IEEE 754 format binary64, by its bits. -/
structure Binary64 where
  bits : UInt64
deriving DecidableEq

namespace Binary64

def signWeight : Nat :=
  0x8000000000000000

/-- The weight of the lowest exponent bit, the 52nd power of two; it is also that of the leading
bit of a significand, which is not stored. -/
def exponentWeight : Nat :=
  0x10000000000000

/-- The exponent field of infinities and NaNs. -/
def topExponent : Nat :=
  0x7FF

def isNegative (x : Binary64) : Bool :=
  signWeight ≤ x.bits.toNat

/-- The eleven bits of the biased exponent. -/
def exponentField (x : Binary64) : Nat :=
  x.bits.toNat / exponentWeight % (topExponent + 1)

def fractionField (x : Binary64) : Nat :=
  x.bits.toNat % exponentWeight

def isFinite (x : Binary64) : Bool :=
  x.exponentField != topExponent

def isNaN (x : Binary64) : Bool :=
  x.exponentField == topExponent && x.fractionField != 0

/-- The integer significand of a finite number, with its leading bit. -/
def significand (x : Binary64) : Nat :=
  if x.exponentField = 0 then x.fractionField else exponentWeight + x.fractionField

/-- The power of two by which the significand of a finite number is multiplied. -/
def exponent (x : Binary64) : Int :=
  if x.exponentField = 0 then -1074 else (x.exponentField : Int) - 1075

structure Ratio where
  num : Nat
  den : Nat

/-- `num * 2 ^ exponent`. -/
def Ratio.scaled (num : Nat) (exponent : Int) : Ratio :=
  if 0 ≤ exponent then ⟨num * Nat.pow 2 exponent.toNat, 1⟩
  else ⟨num, Nat.pow 2 (-exponent).toNat⟩

def magnitude (x : Binary64) : Ratio :=
  .scaled x.significand x.exponent

/-- The integer nearest to `num / den`; halfway between two, the even one. -/
def roundHalfEven (num den : Nat) : Nat :=
  let floor := num / den
  let twice := 2 * (num % den)
  if twice < den then floor
  else if den < twice then floor + 1
  else if floor % 2 = 0 then floor else floor + 1

def infinityBits : Nat :=
  topExponent * exponentWeight

def shiftedDown (num den : Nat) (shift : Int) : Ratio :=
  if 0 ≤ shift then ⟨num, den * Nat.pow 2 shift.toNat⟩ else ⟨num * Nat.pow 2 (-shift).toNat, den⟩

/-- The bits of the number nearest to `num / den`, which is not negative. With `shift` the power of
two of its last place, `round (num / den / 2 ^ shift)` is its significand: a carry out of it moves
on into the exponent field. -/
def nearestBits (num den : Nat) : Nat :=
  let estimate : Int := (num.log2 : Int) - den.log2 - 53
  let r := shiftedDown num den estimate
  let fits := r.num < r.den * (2 * exponentWeight)
  let shift := max (if fits then estimate else estimate + 1) (-1074)
  let r := shiftedDown num den shift
  min ((shift + 1074).toNat * exponentWeight + roundHalfEven r.num r.den) infinityBits

def ofRatio (negative : Bool) (num den : Nat) : Binary64 :=
  let bits := if num = 0 then 0 else nearestBits num den
  ⟨UInt64.ofNat (if negative then bits + signWeight else bits)⟩

def ofInt (n : Int) : Binary64 :=
  ofRatio (n < 0) n.natAbs 1

/-- The number nearest to `digits * 10 ^ exponent`, or to its negative. -/
def ofDecimal (negative : Bool) (digits : Nat) (exponent : Int) : Binary64 :=
  if 0 ≤ exponent then ofRatio negative (digits * Nat.pow 10 exponent.toNat) 1
  else ofRatio negative digits (Nat.pow 10 (-exponent).toNat)

end Binary64

end ReductionGrammar
