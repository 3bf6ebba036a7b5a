import ReductionGrammar.Number.Binary64

/-!
# The shortest decimal of a binary number

Among all decimals that are nearer to a finite number than to any other number of its format, the
shortest one is chosen, and of those of that length the nearest one; of two equally near ones the
greater. The decimals of a given length that come into question are the two neighbours of the
number on the grid of their last place.
-/

namespace ReductionGrammar

/-- The decimal `digits * 10 ^ exponent`. -/
structure Decimal where
  digits : Nat
  exponent : Int
deriving DecidableEq

def Decimal.ratio (d : Decimal) : Binary64.Ratio :=
  if 0 ≤ d.exponent then ⟨d.digits * Nat.pow 10 d.exponent.toNat, 1⟩
  else ⟨d.digits, Nat.pow 10 (-d.exponent).toNat⟩

namespace Binary64

namespace Ratio

/-- `r` is smaller than `s`, or equal to it if `closed`. -/
def below (closed : Bool) (r s : Ratio) : Bool :=
  if closed then r.num * s.den ≤ s.num * r.den else r.num * s.den < s.num * r.den

/-- The exponent of the power of ten in the first place of a positive fraction. -/
def tenExponent (r : Ratio) : Int :=
  if r.den ≤ r.num then (Nat.toDigits 10 (r.num / r.den)).length - 1
  else -((Nat.toDigits 10 ((r.den - 1) / r.num)).length : Int)

end Ratio

/-- The decimals that read back as a number lie between two bounds, halfway to its neighbours;
the bounds belong to them if the significand is even. -/
structure Neighbourhood where
  lower : Ratio
  upper : Ratio
  closed : Bool

/-- The neighbourhood of a positive finite number. Below a power of two the numbers lie twice as
close together. -/
def neighbourhood (x : Binary64) : Neighbourhood where
  lower := .scaled
    (4 * x.significand - if x.fractionField = 0 ∧ 1 < x.exponentField then 1 else 2)
    (x.exponent - 2)
  upper := .scaled (4 * x.significand + 2) (x.exponent - 2)
  closed := x.significand % 2 == 0

def Neighbourhood.contains (n : Neighbourhood) (d : Decimal) : Bool :=
  n.lower.below n.closed d.ratio && d.ratio.below n.closed n.upper

/-- The integer part of `r / 10 ^ exponent`. -/
def Ratio.onGrid (r : Ratio) (exponent : Int) : Nat :=
  if 0 ≤ exponent then r.num / (r.den * Nat.pow 10 exponent.toNat)
  else r.num * Nat.pow 10 (-exponent).toNat / r.den

def nearerBelow (r : Ratio) (d : Decimal) : Bool :=
  let twice := (⟨2 * d.digits + 1, d.exponent⟩ : Decimal).ratio
  2 * r.num * twice.den < twice.num * r.den

/-- The decimal with its last place at `10 ^ exponent` that reads back as the number, if any. -/
def decimalOnGrid? (x : Binary64) (exponent : Int) : Option Decimal :=
  let r := x.magnitude
  let n := x.neighbourhood
  let lo : Decimal := ⟨r.onGrid exponent, exponent⟩
  let hi : Decimal := ⟨lo.digits + 1, exponent⟩
  match n.contains lo, n.contains hi with
  | true, true => some (if nearerBelow r lo then lo else hi)
  | true, false => some lo
  | false, true => some hi
  | false, false => none

/-- The shortest decimal that reads back as a finite number of which the sign is left out. Seventeen
places are always enough. -/
def shortest (x : Binary64) : Decimal :=
  if x.significand = 0 then ⟨0, 0⟩
  else
    let first := x.magnitude.tenExponent
    match (List.range 17).findSome? fun (i : Nat) => x.decimalOnGrid? (first - i) with
    | some d => d
    | none => ⟨x.magnitude.onGrid (first - 16), first - 16⟩

end Binary64

end ReductionGrammar
